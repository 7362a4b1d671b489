import StopTrading.Library.Threads
import Mathlib.Algebra.Group.Nat.Defs

/-!
# Order identifiers under concurrency

`generate_order_id` of `IdempotentOrderIdGenerator`, one atomic operation a step.  A
call draws a number from the counter, builds an identifier from it and tries to
store that in the register `last_id`; where the register has already moved past it,
another number is drawn.  Both attempts are weak compare-exchanges, which may fail
although the register holds the expected value.

* `Journal` — the generator with the identifiers issued so far, each with those that
  had been returned when its call began.
* `issue_cases` — the register is only ever written by a successful exchange, and
  only with a larger value.
* `identifiers_ordered` — hence the identifiers are distinct, increase in the order
  of the exchanges, and a call that begins after another has returned yields a
  larger one, for any number of threads, in any interleaving and from any state of
  the counter.

### What is load-bearing

All three properties follow from one fact about the register: no identifier that was issued
exceeds it (`Journal.Registered`).  An exchange succeeds only with a larger value, so the new
identifier is larger than every one before it, which gives that they are distinct, and increasing
in the order of the exchanges.  A call that began after another returned is later in that order.

What a thread remembers may be stale, and the invariant says little about it: that what had been
issued when its call began is still issued, and for the second attempt that the number exceeds
what was loaded (`OrderIdPc.Knows`).  The exchange checks the rest.

### Design decisions

* A compare-exchange is one step with a bit that says whether it fails spuriously.  A run chooses
  these bits as it chooses the threads.
* The journal is a ghost: nothing of `generate_order_id` reads it.
-/

namespace StopTrading.Risk

open Transition Threads

/-- `IdempotentOrderIdGenerator`. -/
structure IdempotentOrderIdGenerator where
  counter : Nat
  lastId : Nat
  epochBase : Nat
  deriving Repr, DecidableEq

namespace IdempotentOrderIdGenerator

/-- `IdempotentOrderIdGenerator::new`. -/
def new (epochBase : Nat) : IdempotentOrderIdGenerator := ⟨0, 0, epochBase⟩

/-- The identifier built from a number of the counter: epoch bits, then counter bits. -/
def orderId (g : IdempotentOrderIdGenerator) (counter : Nat) : Nat :=
  (g.epochBase <<< 32) % 2 ^ 64 ||| (counter &&& 0xFFFFFFFF)

/-- `counter.fetch_add(1)`. -/
def fetchAdd (g : IdempotentOrderIdGenerator) : IdempotentOrderIdGenerator :=
  { g with counter := (g.counter + 1) % 2 ^ 64 }

end IdempotentOrderIdGenerator

/-- An identifier issued by a call, and those that had been issued when the call
began. -/
structure Issue where
  orderId : Nat
  before : List Nat
  deriving Repr, DecidableEq

/-- The generator and the identifiers issued so far, the newest first. -/
structure Journal where
  generator : IdempotentOrderIdGenerator
  issues : List Issue
  deriving Repr, DecidableEq

namespace Journal

/-- The identifiers issued so far, the newest first. -/
def ids (j : Journal) : List Nat := j.issues.map Issue.orderId

/-- A successful exchange: the register is set and the call returns the identifier. -/
def issue (j : Journal) (orderId : Nat) (before : List Nat) : Journal where
  generator := { j.generator with lastId := orderId }
  issues := ⟨orderId, before⟩ :: j.issues

end Journal

/-- The program counter of a thread; `before` is what had been issued when its call
began, and the rest are the local variables of `generate_order_id`. -/
inductive OrderIdPc where
  | idle
  | loadLast (before : List Nat) (orderId : Nat)
  | loopHead (before : List Nat) (orderId last : Nat)
  | loadAgain (before : List Nat) (orderId newOrderId : Nat)
  | exchangeAgain (before : List Nat) (orderId newOrderId last : Nat)
  deriving Repr, DecidableEq

open OrderIdPc in
/-- **`generate_order_id`**, one atomic operation a step.  A failed exchange, spurious
or not, leaves what the register holds in `last`. -/
def orderIdThread (Tid : Type) (_ : Tid) (j : Journal) :
    OrderIdPc → (spurious : Bool) → Option (Journal × OrderIdPc)
  | idle, _ =>
      some ({ j with generator := j.generator.fetchAdd },
        loadLast j.ids (j.generator.orderId j.generator.counter))
  | loadLast before orderId, _ => some (j, loopHead before orderId j.generator.lastId)
  | loopHead before orderId last, spurious =>
      if orderId > last then
        if j.generator.lastId = last ∧ spurious = false then
          some (j.issue orderId before, idle)
        else some (j, loopHead before orderId j.generator.lastId)
      else
        some ({ j with generator := j.generator.fetchAdd },
          loadAgain before orderId (j.generator.orderId j.generator.counter))
  | loadAgain before orderId newOrderId, _ =>
      if newOrderId > j.generator.lastId then
        some (j, exchangeAgain before orderId newOrderId j.generator.lastId)
      else some (j, loopHead before orderId j.generator.lastId)
  | exchangeAgain before orderId newOrderId last, spurious =>
      if j.generator.lastId = last ∧ spurious = false then
        some (j.issue newOrderId before, idle)
      else some (j, loopHead before orderId j.generator.lastId)

/-- **Identifiers are unique and ordered**: by their exchanges, and by the calls that
returned before others began. -/
structure Journal.Ordered (j : Journal) : Prop where
  /-- No identifier is issued twice. -/
  distinct : j.ids.Nodup
  /-- A later exchange gives a larger one, -/
  increasing : j.ids.Pairwise (· > ·)
  /-- and so does a call that began after others had returned. -/
  later : ∀ i ∈ j.issues, ∀ id ∈ i.before, id < i.orderId

/-! ## The register -/

/-- What a call knows of the identifiers issued before it, and the second attempt of the
number it has drawn. -/
def OrderIdPc.Knows (ids : List Nat) : OrderIdPc → Prop
  | idle => True
  | loadLast before _ => before ⊆ ids
  | loopHead before _ _ => before ⊆ ids
  | loadAgain before _ _ => before ⊆ ids
  | exchangeAgain before _ newOrderId last => before ⊆ ids ∧ newOrderId > last

/-- What a call knows is not lost when more is issued. -/
theorem OrderIdPc.Knows.mono {ids ids' : List Nat} (h : ids ⊆ ids') {p : OrderIdPc}
    (hp : p.Knows ids) : p.Knows ids' := by
  cases p with
  | idle => trivial
  | loadLast => exact List.Subset.trans hp h
  | loopHead => exact List.Subset.trans hp h
  | loadAgain => exact List.Subset.trans hp h
  | exchangeAgain => exact ⟨List.Subset.trans hp.1 h, hp.2⟩

/-- The register holds the largest identifier, or what it held at first. -/
structure Journal.Registered (j : Journal) : Prop where
  ordered : j.Ordered
  /-- No identifier exceeds the register. -/
  le_lastId : ∀ id ∈ j.ids, id ≤ j.generator.lastId

/-- **What one atomic operation does** to the journal: it leaves the register and the
issues alone, or it issues an identifier that exceeds the register. -/
theorem issue_cases {Tid : Type} {t : Tid} {j j' : Journal} {p p' : OrderIdPc} {spurious : Bool}
    (hp : p.Knows j.ids) (hstep : orderIdThread Tid t j p spurious = some (j', p')) :
    (j'.generator.lastId = j.generator.lastId ∧ j'.issues = j.issues ∧ p'.Knows j.ids) ∨
    ∃ orderId before, j.generator.lastId < orderId ∧ before ⊆ j.ids ∧
      j' = j.issue orderId before ∧ p' = .idle := by
  cases p with
  | idle =>
      cases hstep
      exact Or.inl ⟨rfl, rfl, List.Subset.refl _⟩
  | loadLast before orderId =>
      cases hstep
      exact Or.inl ⟨rfl, rfl, hp⟩
  | loopHead before orderId last =>
      simp only [orderIdThread] at hstep
      split at hstep
      · rename_i hgt
        split at hstep
        · -- the register still holds the value the identifier was compared with
          rename_i hexchange
          cases hstep
          exact Or.inr ⟨orderId, before, hexchange.1 ▸ hgt, hp, rfl, rfl⟩
        · cases hstep
          exact Or.inl ⟨rfl, rfl, hp⟩
      · cases hstep
        exact Or.inl ⟨rfl, rfl, hp⟩
  | loadAgain before orderId newOrderId =>
      simp only [orderIdThread] at hstep
      split at hstep
      · rename_i hgt
        cases hstep
        exact Or.inl ⟨rfl, rfl, hp, hgt⟩
      · cases hstep
        exact Or.inl ⟨rfl, rfl, hp⟩
  | exchangeAgain before orderId newOrderId last =>
      simp only [orderIdThread] at hstep
      split at hstep
      · rename_i hexchange
        cases hstep
        exact Or.inr ⟨newOrderId, before, hexchange.1 ▸ hp.2, hp.1, rfl, rfl⟩
      · cases hstep
        exact Or.inl ⟨rfl, rfl, hp.1⟩

/-- An identifier that exceeds the register exceeds all issued before it. -/
theorem Journal.Registered.issue {j : Journal} (h : j.Registered) {orderId : Nat}
    {before : List Nat} (hgt : j.generator.lastId < orderId) (hbefore : before ⊆ j.ids) :
    (j.issue orderId before).Registered := by
  have hlt : ∀ id ∈ j.ids, id < orderId := fun id hid => Nat.lt_of_le_of_lt (h.le_lastId id hid) hgt
  refine ⟨⟨?_, ?_, ?_⟩, ?_⟩
  · exact List.nodup_cons.mpr ⟨fun hmem => Nat.lt_irrefl _ (hlt orderId hmem), h.ordered.distinct⟩
  · exact List.pairwise_cons.mpr ⟨hlt, h.ordered.increasing⟩
  · exact List.forall_mem_cons.mpr ⟨fun id hid => hlt id (hbefore hid), h.ordered.later⟩
  · exact List.forall_mem_cons.mpr ⟨Nat.le_refl _, fun id hid => Nat.le_of_lt (hlt id hid)⟩

/-- Operations on the counter keep the register. -/
theorem Journal.Registered.of_eq {j j' : Journal} (h : j.Registered)
    (hlast : j'.generator.lastId = j.generator.lastId) (hissues : j'.issues = j.issues) :
    j'.Registered := by
  have hids : j'.ids = j.ids := congrArg (List.map Issue.orderId) hissues
  refine ⟨⟨?_, ?_, ?_⟩, ?_⟩
  · rw [hids]; exact h.ordered.distinct
  · rw [hids]; exact h.ordered.increasing
  · rw [hissues]; exact h.ordered.later
  · rw [hids, hlast]; exact h.le_lastId

/-! ## Runs -/

variable {Tid : Type}

/-- The generator and its threads. -/
abbrev OrderIdThreads (Tid : Type) := State Tid OrderIdPc Journal

/-- A generator in any state, and no call in progress. -/
def orderIdInit (Tid : Type) (g : IdempotentOrderIdGenerator) : OrderIdThreads Tid :=
  ⟨⟨g, []⟩, fun _ => .idle⟩

/-- The invariant. -/
structure OrderIdInv (s : OrderIdThreads Tid) : Prop where
  registered : s.shared.Registered
  /-- Every thread is right in what it remembers. -/
  knows : ∀ t, (s.pc t).Knows s.shared.ids

/-- At the beginning nothing has been issued. -/
theorem orderIdInv_init (g : IdempotentOrderIdGenerator) : OrderIdInv (orderIdInit Tid g) where
  registered :=
    { ordered := ⟨List.nodup_nil, List.Pairwise.nil, List.forall_mem_nil _⟩
      le_lastId := List.forall_mem_nil _ }
  knows _ := trivial

variable [DecidableEq Tid]

/-- **One operation of one thread** keeps the invariant. -/
theorem OrderIdInv.step {s s' : OrderIdThreads Tid} {a : Tid × Bool} (inv : OrderIdInv s)
    (hstep : step (orderIdThread Tid) s a = some s') : OrderIdInv s' := by
  obtain ⟨j, p, hprog, rfl⟩ := step_eq_some.mp hstep
  rcases issue_cases (inv.knows a.1) hprog with
    ⟨hlast, hissues, hp⟩ | ⟨orderId, before, hgt, hbefore, rfl, rfl⟩
  · have hids : j.ids = s.shared.ids := congrArg (List.map Issue.orderId) hissues
    refine ⟨inv.registered.of_eq hlast hissues, ?_⟩
    show ∀ t, (Function.update s.pc a.1 p t).Knows j.ids
    rw [hids]
    exact forall_pc_update hp fun t _ => inv.knows t
  · refine ⟨inv.registered.issue hgt hbefore, ?_⟩
    exact forall_pc_update trivial fun t _ => (inv.knows t).mono (List.subset_cons_self _ _)

/-- **Order identifiers are unique under concurrency**: in every state of every
interleaving of calls of `generate_order_id`. -/
theorem identifiers_ordered (g : IdempotentOrderIdGenerator) (schedule : List (Tid × Bool)) :
    AllStates (step (orderIdThread Tid)) (fun s => s.shared.Ordered) (orderIdInit Tid g)
      schedule :=
  (allStates_of_invariant (fun _ _ _ inv hstep => OrderIdInv.step inv hstep) (orderIdInv_init g)
    schedule).imp fun _ inv => inv.registered.ordered

end StopTrading.Risk
