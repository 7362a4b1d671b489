import StopTrading.Risk.OrderId
import Mathlib.Data.List.Nodup
import Mathlib.Data.List.Perm.Subperm
import Mathlib.Data.Set.BooleanAlgebra
import Mathlib.Order.CompletePartialOrder
import Mathlib.Tactic.Common

/-!
# What order identifiers run out of

An identifier has 32 bits of the epoch and 32 of the counter, and an issued one must exceed
the last.  So an epoch has a largest identifier.  While it is not issued, a call that runs
alone draws a number that will do after at most 2^32 attempts; once it is issued, no number
will, and a call draws numbers forever (`loop_finishes`, `Stuck.step`).  Every epoch can be
brought there (`exists_exhausted`).

The shift cuts the upper half of the epoch.  Generators of two epochs never return the same
identifier exactly when the lower halves of the epochs differ, and otherwise all of their
identifiers are the same (`returnedIds_congr`).

### What is load-bearing

Whether a call returns is decided by the register against the largest identifier of the epoch.
Below it, the loop draws at most `2 ^ 32` numbers before one exceeds the register, since the
counter bits go through all values in that time; `loop_finishes` is an induction on the draws to
the one that gives the largest identifier.  At it, nothing that can be drawn is larger, and
`Stuck` is kept by every step.

Spurious failures are finitely many in `Returns`.  The code cannot promise more: an exchange that
always fails never succeeds.

### Design decisions

The upper half of an epoch is cut off by a map of the whole journal, and every operation commutes
with it (`orderIdThread_cut`).  So two epochs with the same lower half have the same runs, and
the same identifiers, with no argument about the arithmetic of either.
-/

namespace StopTrading.Risk

open Transition Threads

namespace IdempotentOrderIdGenerator

/-- The epoch fills the upper half of an identifier and the counter the lower one. -/
theorem orderId_eq (g : IdempotentOrderIdGenerator) (counter : Nat) :
    g.orderId counter = 2 ^ 32 * (g.epochBase % 2 ^ 32) + counter % 2 ^ 32 := by
  have hepoch : (g.epochBase <<< 32) % 2 ^ 64 = 2 ^ 32 * (g.epochBase % 2 ^ 32) := by
    rw [Nat.shiftLeft_eq]
    omega
  have hcounter : counter &&& 0xFFFFFFFF = counter % 2 ^ 32 :=
    Nat.and_two_pow_sub_one_eq_mod counter 32
  rw [orderId, hepoch, hcounter]
  exact (Nat.two_pow_add_eq_or_of_lt (Nat.mod_lt _ (by decide)) _).symm

/-- The largest identifier of the epoch. -/
def largestId (g : IdempotentOrderIdGenerator) : Nat := g.orderId 0xFFFFFFFF

end IdempotentOrderIdGenerator

/-- An identifier has the bits of an epoch. -/
def OfEpoch (epochBase orderId : Nat) : Prop := orderId / 2 ^ 32 = epochBase % 2 ^ 32

/-- Every number of the counter gives an identifier of the epoch, -/
theorem ofEpoch_orderId (g : IdempotentOrderIdGenerator) (counter : Nat) :
    OfEpoch g.epochBase (g.orderId counter) := by
  unfold OfEpoch
  rw [g.orderId_eq]
  omega

/-- and none is beyond the largest. -/
theorem OfEpoch.le_largestId {g : IdempotentOrderIdGenerator} {orderId : Nat}
    (h : OfEpoch g.epochBase orderId) : orderId ≤ g.largestId := by
  unfold OfEpoch at h
  rw [IdempotentOrderIdGenerator.largestId, g.orderId_eq]
  omega

/-! ## Identifiers are drawn from the counter -/

/-- The identifiers a call has drawn. -/
def OrderIdPc.drawn : OrderIdPc → List Nat
  | idle => []
  | loadLast _ orderId => [orderId]
  | loopHead _ orderId _ => [orderId]
  | loadAgain _ orderId newOrderId => [orderId, newOrderId]
  | exchangeAgain _ orderId newOrderId _ => [orderId, newOrderId]

/-- **Where identifiers come from**: one atomic operation keeps the epoch and draws from the
counter only, and either the call goes on and nothing is issued, or it returns and has issued
what it had drawn. -/
theorem drawn_cases {Tid : Type} {t : Tid} {j j' : Journal} {p p' : OrderIdPc} {spurious : Bool}
    (hstep : orderIdThread Tid t j p spurious = some (j', p')) :
    j'.generator.epochBase = j.generator.epochBase ∧
      (∀ o ∈ p'.drawn, o ∈ p.drawn ∨ o = j.generator.orderId j.generator.counter) ∧
      ((p'.drawn ≠ [] ∧ j'.generator.lastId = j.generator.lastId ∧ j'.issues = j.issues) ∨
        p' = .idle ∧ ∃ orderId before, orderId ∈ p.drawn ∧ j' = j.issue orderId before) := by
  cases p with
  | idle =>
      cases hstep
      exact ⟨rfl, fun o ho => Or.inr (List.mem_singleton.mp ho),
        Or.inl ⟨List.cons_ne_nil _ _, rfl, rfl⟩⟩
  | loadLast before orderId =>
      cases hstep
      exact ⟨rfl, fun o ho => Or.inl ho, Or.inl ⟨List.cons_ne_nil _ _, rfl, rfl⟩⟩
  | loopHead before orderId last =>
      simp only [orderIdThread] at hstep
      split_ifs at hstep with hgt hexchange
      -- the exchange succeeds, or fails, or another number is drawn
      · cases hstep
        exact ⟨rfl, List.forall_mem_nil _,
          Or.inr ⟨rfl, orderId, before, List.mem_singleton_self _, rfl⟩⟩
      · cases hstep
        exact ⟨rfl, fun o ho => Or.inl ho, Or.inl ⟨List.cons_ne_nil _ _, rfl, rfl⟩⟩
      · cases hstep
        refine ⟨rfl, fun o ho => ?_, Or.inl ⟨List.cons_ne_nil _ _, rfl, rfl⟩⟩
        rcases List.mem_cons.mp ho with rfl | ho
        · exact Or.inl (List.mem_singleton_self _)
        · exact Or.inr (List.mem_singleton.mp ho)
  | loadAgain before orderId newOrderId =>
      simp only [orderIdThread] at hstep
      split_ifs at hstep with hgt
      · cases hstep
        exact ⟨rfl, fun o ho => Or.inl ho, Or.inl ⟨List.cons_ne_nil _ _, rfl, rfl⟩⟩
      · cases hstep
        refine ⟨rfl, fun o ho => Or.inl ?_, Or.inl ⟨List.cons_ne_nil _ _, rfl, rfl⟩⟩
        exact List.mem_cons.mpr (Or.inl (List.mem_singleton.mp ho))
  | exchangeAgain before orderId newOrderId last =>
      simp only [orderIdThread] at hstep
      split_ifs at hstep with hexchange
      · cases hstep
        refine ⟨rfl, List.forall_mem_nil _, Or.inr ⟨rfl, newOrderId, before, ?_, rfl⟩⟩
        exact List.mem_cons_of_mem _ (List.mem_singleton_self _)
      · cases hstep
        refine ⟨rfl, fun o ho => Or.inl ?_, Or.inl ⟨List.cons_ne_nil _ _, rfl, rfl⟩⟩
        exact List.mem_cons.mpr (Or.inl (List.mem_singleton.mp ho))

/-- No operation is ever impossible. -/
theorem exists_orderIdThread {Tid : Type} (t : Tid) (j : Journal) (p : OrderIdPc)
    (spurious : Bool) : ∃ j' p', orderIdThread Tid t j p spurious = some (j', p') := by
  cases p with
  | idle => exact ⟨_, _, rfl⟩
  | loadLast before orderId => exact ⟨_, _, rfl⟩
  | loopHead before orderId last =>
      simp only [orderIdThread]
      split_ifs <;> exact ⟨_, _, rfl⟩
  | loadAgain before orderId newOrderId =>
      simp only [orderIdThread]
      split_ifs <;> exact ⟨_, _, rfl⟩
  | exchangeAgain before orderId newOrderId last =>
      simp only [orderIdThread]
      split_ifs <;> exact ⟨_, _, rfl⟩

/-! ## A call that runs alone -/

section Alone

variable {Tid : Type} {t : Tid}

/-- A thread that runs alone, with the spurious failures given, comes to the end of its call,
which issues one identifier. -/
def Finishes (spurious : Nat → Bool) (t : Tid) (j : Journal) (p : OrderIdPc) : Prop :=
  ∃ k j' orderId, solo (orderIdThread Tid) t j p ((List.range k).map spurious) = some (j', .idle) ∧
    j'.ids = orderId :: j.ids

/-- **A call that runs alone returns**, whatever the spurious failures, if they are finitely
many. -/
def Returns (t : Tid) (j : Journal) : Prop :=
  ∀ spurious : Nat → Bool, (∃ n, ∀ m, n ≤ m → spurious m = false) → Finishes spurious t j .idle

/-- A call that finishes from the next step on finishes from this one, -/
theorem Finishes.of_step {spurious : Nat → Bool} {j j' : Journal} {p p' : OrderIdPc}
    (hstep : orderIdThread Tid t j p (spurious 0) = some (j', p')) (hids : j'.ids = j.ids)
    (h : Finishes (fun m => spurious (m + 1)) t j' p') : Finishes spurious t j p := by
  obtain ⟨k, j'', orderId, hsolo, hissued⟩ := h
  refine ⟨k + 1, j'', orderId, ?_, hids ▸ hissued⟩
  rw [List.range_succ_eq_map, List.map_cons, List.map_map, solo, hstep]
  exact hsolo

/-- and one that issues an identifier has finished. -/
theorem Finishes.of_issue {spurious : Nat → Bool} {j : Journal} {p : OrderIdPc} {orderId : Nat}
    {before : List Nat}
    (hstep : orderIdThread Tid t j p (spurious 0) = some (j.issue orderId before, .idle)) :
    Finishes spurious t j p :=
  ⟨1, _, orderId, by rw [List.range_one, List.map_singleton, solo, hstep]; rfl, rfl⟩

/-- A number that gives less than the largest identifier is not the last of its cycle. -/
theorem draws_left_lt {g : IdempotentOrderIdGenerator} (h : g.orderId g.counter < g.largestId) :
    2 ^ 32 - 1 - g.fetchAdd.counter % 2 ^ 32 < 2 ^ 32 - 1 - g.counter % 2 ^ 32 := by
  rw [IdempotentOrderIdGenerator.largestId, g.orderId_eq, g.orderId_eq] at h
  show 2 ^ 32 - 1 - (g.counter + 1) % 2 ^ 64 % 2 ^ 32 < _
  omega

/-- Once the loop has loaded the register it draws numbers until one exceeds it, which the
last of the cycle does.  The induction is on the draws to that one. -/
theorem loop_finishes (before : List Nat) (orderId d : Nat) :
    ∀ j : Journal, 2 ^ 32 - 1 - j.generator.counter % 2 ^ 32 = d →
      j.generator.lastId < j.generator.largestId →
      Finishes (fun _ => false) t j (.loopHead before orderId j.generator.lastId) := by
  induction d using Nat.strongRecOn with
  | ind d ih =>
      intro j hd hlt
      by_cases hfirst : orderId > j.generator.lastId
      -- the number drawn before the loop will do
      · exact Finishes.of_issue ((if_pos hfirst).trans (if_pos ⟨rfl, rfl⟩))
      have hdraw : orderIdThread Tid t j (.loopHead before orderId j.generator.lastId) false =
          some ({ j with generator := j.generator.fetchAdd },
            .loadAgain before orderId (j.generator.orderId j.generator.counter)) :=
        if_neg hfirst
      refine Finishes.of_step hdraw rfl ?_
      by_cases hnew : j.generator.orderId j.generator.counter > j.generator.lastId
      -- nobody else moves, so the exchange after the load succeeds
      · exact Finishes.of_step (if_pos hnew) rfl (Finishes.of_issue (if_pos ⟨rfl, rfl⟩))
      · have hleft := draws_left_lt (Nat.lt_of_le_of_lt (Nat.le_of_not_gt hnew) hlt)
        exact Finishes.of_step (if_neg hnew) rfl
          (ih _ (hd ▸ hleft) { j with generator := j.generator.fetchAdd } rfl hlt)

/-- So does a call that is at any point of its way. -/
theorem finishes_of_lt {j : Journal} {p : OrderIdPc} (hp : p.drawn ≠ [])
    (hlt : j.generator.lastId < j.generator.largestId) : Finishes (fun _ => false) t j p := by
  have hloop : ∀ before orderId,
      Finishes (fun _ => false) t j (.loopHead before orderId j.generator.lastId) :=
    fun before orderId => loop_finishes before orderId _ j rfl hlt
  have hagain : ∀ j : Journal, j.generator.lastId < j.generator.largestId →
      ∀ before orderId newOrderId,
        Finishes (fun _ => false) t j (.loadAgain before orderId newOrderId) := by
    intro j hlt before orderId newOrderId
    by_cases hnew : newOrderId > j.generator.lastId
    · exact Finishes.of_step (if_pos hnew) rfl (Finishes.of_issue (if_pos ⟨rfl, rfl⟩))
    · exact Finishes.of_step (if_neg hnew) rfl (loop_finishes before orderId _ j rfl hlt)
  cases p with
  | idle => exact absurd rfl hp
  | loadLast before orderId => exact Finishes.of_step rfl rfl (hloop before orderId)
  | loopHead before orderId last =>
      by_cases hfirst : orderId > last
      · by_cases hlast : j.generator.lastId = last
        · exact hlast ▸ hloop before orderId
        · exact Finishes.of_step ((if_pos hfirst).trans (if_neg fun h => hlast h.1)) rfl
            (hloop before orderId)
      · exact Finishes.of_step (if_neg hfirst) rfl
          (hagain { j with generator := j.generator.fetchAdd } hlt before orderId _)
  | loadAgain before orderId newOrderId => exact hagain j hlt before orderId newOrderId
  | exchangeAgain before orderId newOrderId last =>
      by_cases hlast : j.generator.lastId = last
      · exact Finishes.of_issue (if_pos ⟨hlast, rfl⟩)
      · exact Finishes.of_step (if_neg fun h => hlast h.1) rfl (hloop before orderId)

/-- Spurious failures cost time, and the call is still on its way when the last has passed. -/
theorem finishes_of_eventually (n : Nat) :
    ∀ (spurious : Nat → Bool) (j : Journal) (p : OrderIdPc), p.drawn ≠ [] →
      j.generator.lastId < j.generator.largestId → (∀ m, n ≤ m → spurious m = false) →
      Finishes spurious t j p := by
  induction n with
  | zero =>
      intro spurious j p hp hlt hfalse
      obtain rfl : spurious = fun _ => false := funext fun m => hfalse m (Nat.zero_le m)
      exact finishes_of_lt hp hlt
  | succ n ih =>
      intro spurious j p hp hlt hfalse
      obtain ⟨j', p', hstep⟩ := exists_orderIdThread t j p (spurious 0)
      obtain ⟨hepoch, _, ⟨hp', hlast, hissues⟩ | ⟨rfl, orderId, before, _, rfl⟩⟩ :=
        drawn_cases hstep
      · have hlargest : j'.generator.largestId = j.generator.largestId := by
          rw [IdempotentOrderIdGenerator.largestId, IdempotentOrderIdGenerator.largestId,
            IdempotentOrderIdGenerator.orderId_eq, IdempotentOrderIdGenerator.orderId_eq, hepoch]
        refine Finishes.of_step hstep (congrArg (List.map Issue.orderId) hissues) ?_
        exact ih _ j' p' hp' (by rw [hlast, hlargest]; exact hlt)
          fun m hm => hfalse (m + 1) (Nat.succ_le_succ hm)
      · exact Finishes.of_issue hstep

/-- A call is in its loop, with nothing drawn that exceeds the register. -/
def OrderIdPc.Hopeless (lastId : Nat) : OrderIdPc → Prop
  | idle => False
  | loadLast _ orderId => orderId ≤ lastId
  | loopHead _ orderId last => orderId ≤ lastId ∧ last = lastId
  | loadAgain _ orderId newOrderId => orderId ≤ lastId ∧ newOrderId ≤ lastId
  | exchangeAgain _ _ _ _ => False

/-- Nor will it draw anything that does: the register is at the largest identifier. -/
structure Stuck (j : Journal) (p : OrderIdPc) : Prop where
  /-- The register is at the largest identifier, or beyond, -/
  full : j.generator.largestId ≤ j.generator.lastId
  /-- and the call has drawn nothing that is larger. -/
  hopeless : p.Hopeless j.generator.lastId

/-- Once the register is full, no number exceeds it. -/
theorem orderId_le_of_full {j : Journal} (hfull : j.generator.largestId ≤ j.generator.lastId)
    (counter : Nat) : j.generator.orderId counter ≤ j.generator.lastId :=
  Nat.le_trans (ofEpoch_orderId j.generator counter).le_largestId hfull

/-- **A stuck call stays so**, alone, with spurious failures or without. -/
theorem Stuck.step {j j' : Journal} {p p' : OrderIdPc} {spurious : Bool} (h : Stuck j p)
    (hstep : orderIdThread Tid t j p spurious = some (j', p')) : Stuck j' p' := by
  obtain ⟨hfull, hp⟩ := h
  cases p with
  | idle => exact hp.elim
  | loadLast before orderId =>
      cases hstep
      exact ⟨hfull, hp, rfl⟩
  | loopHead before orderId last =>
      -- the loop goes on to draw, and what it draws is of this epoch
      obtain ⟨hle, rfl⟩ := hp
      simp only [orderIdThread] at hstep
      rw [if_neg (Nat.not_lt.mpr hle)] at hstep
      cases hstep
      exact ⟨hfull, hle, orderId_le_of_full hfull _⟩
  | loadAgain before orderId newOrderId =>
      simp only [orderIdThread] at hstep
      rw [if_neg (Nat.not_lt.mpr hp.2)] at hstep
      cases hstep
      exact ⟨hfull, hp.1, rfl⟩
  | exchangeAgain before orderId newOrderId last => exact hp.elim

/-- **A call that runs alone returns exactly while the register is below the largest
identifier.** -/
theorem returns_iff_lt {j : Journal} :
    Returns t j ↔ j.generator.lastId < j.generator.largestId := by
  constructor
  · intro h
    by_contra hfull
    have hfull : j.generator.largestId ≤ j.generator.lastId := Nat.le_of_not_lt hfull
    obtain ⟨k, j', orderId, hsolo, hissued⟩ := h (fun _ => false) ⟨0, fun _ _ => rfl⟩
    cases k with
    | zero =>
        -- a call that makes no step issues nothing
        obtain ⟨rfl, _⟩ := Prod.mk.inj (Option.some.inj hsolo)
        exact List.cons_ne_self _ _ hissued.symm
    | succ k =>
        rw [List.range_succ_eq_map, List.map_cons] at hsolo
        have hstart : Stuck { j with generator := j.generator.fetchAdd }
            (.loadLast j.ids (j.generator.orderId j.generator.counter)) :=
          ⟨hfull, orderId_le_of_full hfull _⟩
        have hend : Stuck j' .idle :=
          solo_of_invariant (fun _ _ _ _ _ h hstep => Stuck.step h hstep) hstart hsolo
        exact hend.hopeless
  · rintro hlt spurious ⟨n, hfalse⟩
    have hfinishes : Finishes (fun m => spurious (m + 1)) t
        { j with generator := j.generator.fetchAdd }
        (.loadLast j.ids (j.generator.orderId j.generator.counter)) :=
      finishes_of_eventually n _ _ _ (List.cons_ne_nil _ _) hlt
        fun m hm => hfalse (m + 1) (Nat.le_succ_of_le hm)
    exact Finishes.of_step rfl rfl hfinishes

end Alone

/-! ## Runs -/

section Runs

variable {Tid : Type} [DecidableEq Tid]

/-- What the identifiers of a generator have in common. -/
structure EpochInv (epochBase : Nat) (s : OrderIdThreads Tid) : Prop where
  epoch : s.shared.generator.epochBase = epochBase
  /-- All identifiers are of the epoch, -/
  issued : ∀ id ∈ s.shared.ids, OfEpoch epochBase id
  /-- those that were drawn and not issued included. -/
  drawn : ∀ t, ∀ o ∈ (s.pc t).drawn, OfEpoch epochBase o
  /-- The register holds zero or an identifier. -/
  last : s.shared.generator.lastId = 0 ∨ s.shared.generator.lastId ∈ s.shared.ids

/-- A new generator has issued nothing. -/
theorem epochInv_init (Tid : Type) (epochBase : Nat) :
    EpochInv epochBase (orderIdInit Tid (.new epochBase)) where
  epoch := rfl
  issued := List.forall_mem_nil _
  drawn _ := List.forall_mem_nil _
  last := Or.inl rfl

/-- **One operation** issues what was drawn, and draws from the epoch. -/
theorem EpochInv.step {epochBase : Nat} {s s' : OrderIdThreads Tid} {a : Tid × Bool}
    (inv : EpochInv epochBase s) (hstep : step (orderIdThread Tid) s a = some s') :
    EpochInv epochBase s' := by
  obtain ⟨j, p, hprog, rfl⟩ := step_eq_some.mp hstep
  obtain ⟨hepoch, hdrawn, hissue⟩ := drawn_cases hprog
  have hmoved : ∀ o ∈ p.drawn, OfEpoch epochBase o := by
    intro o ho
    rcases hdrawn o ho with ho | rfl
    · exact inv.drawn a.1 o ho
    · exact inv.epoch ▸ ofEpoch_orderId _ _
  have hpcs : ∀ u, ∀ o ∈ (Function.update s.pc a.1 p u).drawn, OfEpoch epochBase o :=
    forall_pc_update (Q := fun _ (q : OrderIdPc) => ∀ o ∈ q.drawn, OfEpoch epochBase o) hmoved
      fun u _ => inv.drawn u
  rcases hissue with ⟨_, hlast, hissues⟩ | ⟨_, orderId, before, ho, rfl⟩
  · have hids : j.ids = s.shared.ids := congrArg (List.map Issue.orderId) hissues
    refine ⟨hepoch.trans inv.epoch, ?_, hpcs, ?_⟩
    · exact hids ▸ inv.issued
    · exact hids ▸ hlast ▸ inv.last
  · refine ⟨inv.epoch, ?_, hpcs, Or.inr (List.mem_cons_self ..)⟩
    exact List.forall_mem_cons.mpr ⟨inv.drawn a.1 orderId ho, inv.issued⟩

/-- A run of threads that share a new generator leads to a state. -/
def Reached (epochBase : Nat) (s : OrderIdThreads Tid) : Prop :=
  ∃ schedule, run (step (orderIdThread Tid)) (orderIdInit Tid (.new epochBase)) schedule = some s

/-- The identifiers that generators created with an epoch ever return. -/
def returnedIds (Tid : Type) [DecidableEq Tid] (epochBase : Nat) : Set Nat :=
  {id | ∃ s : OrderIdThreads Tid, Reached epochBase s ∧ id ∈ s.shared.ids}

/-- The invariants hold in every state that is reached, -/
theorem Reached.epochInv {epochBase : Nat} {s : OrderIdThreads Tid} (h : Reached epochBase s) :
    EpochInv epochBase s := by
  obtain ⟨schedule, hrun⟩ := h
  exact run_of_invariant' (fun _ _ _ inv hstep => EpochInv.step inv hstep)
    (epochInv_init Tid epochBase) hrun

/-- both of them. -/
theorem Reached.orderIdInv {epochBase : Nat} {s : OrderIdThreads Tid} (h : Reached epochBase s) :
    OrderIdInv s := by
  obtain ⟨schedule, hrun⟩ := h
  exact run_of_invariant' (fun _ _ _ inv hstep => OrderIdInv.step inv hstep)
    (orderIdInv_init (.new epochBase)) hrun

/-- The register is below the largest identifier exactly while that one is not issued. -/
theorem Reached.lt_largestId_iff {epochBase : Nat} {s : OrderIdThreads Tid}
    (h : Reached epochBase s) :
    s.shared.generator.lastId < s.shared.generator.largestId ↔
      s.shared.generator.largestId ∉ s.shared.ids := by
  constructor
  · intro hlt hmem
    exact Nat.not_le.mpr hlt (h.orderIdInv.registered.le_lastId _ hmem)
  · intro hmem
    by_contra hle
    have hfull : s.shared.generator.largestId ≤ s.shared.generator.lastId := Nat.le_of_not_lt hle
    have hpos : 0 < s.shared.generator.largestId := by
      rw [IdempotentOrderIdGenerator.largestId, IdempotentOrderIdGenerator.orderId_eq]
      omega
    rcases h.epochInv.last with hlast | hlast
    · omega
    · have hof := h.epochInv.issued _ hlast
      rw [← h.epochInv.epoch] at hof
      exact hmem (Nat.le_antisymm hfull hof.le_largestId ▸ hlast)

/-- **A thread without a call in progress can make one, alone, exactly while the largest
identifier is not issued.** -/
theorem Reached.returns_iff {epochBase : Nat} {s : OrderIdThreads Tid} (h : Reached epochBase s)
    (t : Tid) : Returns t s.shared ↔ s.shared.generator.largestId ∉ s.shared.ids :=
  returns_iff_lt.trans h.lt_largestId_iff

/-- A run may go on with one thread. -/
theorem Reached.solo {epochBase : Nat} {s : OrderIdThreads Tid} (h : Reached epochBase s) {t : Tid}
    {cs : List Bool} {j : Journal} {p : OrderIdPc}
    (hsolo : solo (orderIdThread Tid) t s.shared (s.pc t) cs = some (j, p)) :
    Reached epochBase (⟨j, Function.update s.pc t p⟩ : OrderIdThreads Tid) := by
  obtain ⟨schedule, hrun⟩ := h
  exact ⟨_, run_append hrun (run_solo hsolo)⟩

/-- An epoch has no more than 2^32 identifiers. -/
theorem Reached.length_le {epochBase : Nat} {s : OrderIdThreads Tid} (h : Reached epochBase s) :
    s.shared.ids.length ≤ 2 ^ 32 := by
  have hinj : ∀ a ∈ s.shared.ids, ∀ b ∈ s.shared.ids, a % 2 ^ 32 = b % 2 ^ 32 → a = b := by
    intro a ha b hb hab
    have ha := h.epochInv.issued a ha
    have hb := h.epochInv.issued b hb
    unfold OfEpoch at ha hb
    omega
  have hnodup : (s.shared.ids.map (· % 2 ^ 32)).Nodup :=
    List.Nodup.map_on hinj h.orderIdInv.registered.ordered.distinct
  have hsubset : s.shared.ids.map (· % 2 ^ 32) ⊆ List.range (2 ^ 32) := by
    intro c hc
    obtain ⟨a, _, rfl⟩ := List.mem_map.mp hc
    exact List.mem_range.mpr (Nat.mod_lt a (by decide))
  have hle := (List.subperm_of_subset hnodup hsubset).length_le
  rwa [List.length_map, List.length_range] at hle

/-- **Every epoch can be used up**: calls of one thread alone lead to a generator whose calls
no longer return. -/
theorem exists_exhausted (t : Tid) (epochBase : Nat) :
    ∃ s : OrderIdThreads Tid, Reached epochBase s ∧ s.pc t = .idle ∧ ¬ Returns t s.shared := by
  suffices hgo : ∀ (d : Nat) (s : OrderIdThreads Tid), Reached epochBase s → s.pc t = .idle →
      2 ^ 32 - s.shared.ids.length = d →
      ∃ s : OrderIdThreads Tid, Reached epochBase s ∧ s.pc t = .idle ∧ ¬ Returns t s.shared from
    hgo _ (orderIdInit Tid (.new epochBase)) ⟨[], rfl⟩ rfl rfl
  -- every call that returns uses up one of the identifiers that are left
  intro d
  induction d using Nat.strongRecOn with
  | ind d ih =>
      intro s hreached hidle hd
      by_cases hreturns : Returns t s.shared
      · obtain ⟨k, j, orderId, hsolo, hissued⟩ := hreturns (fun _ => false) ⟨0, fun _ _ => rfl⟩
        have hnext := hreached.solo ((congrArg (Threads.solo _ t s.shared · _) hidle).trans hsolo)
        have hlength := hnext.length_le
        refine ih _ ?_ _ hnext (Function.update_self ..) rfl
        dsimp only at hlength ⊢
        rw [hissued, List.length_cons] at hlength ⊢
        omega
      · exact ⟨s, hreached, hidle, hreturns⟩

/-! ## Two epochs -/

/-- A generator whose epoch is cut to the half that shows. -/
def Journal.cut (j : Journal) : Journal :=
  { j with generator := { j.generator with epochBase := j.generator.epochBase % 2 ^ 32 } }

omit [DecidableEq Tid] in
/-- **An operation does not see the upper half** of the epoch. -/
theorem orderIdThread_cut (t : Tid) (j : Journal) (p : OrderIdPc) (spurious : Bool) :
    orderIdThread Tid t j.cut p spurious =
      (orderIdThread Tid t j p spurious).map (Prod.map Journal.cut id) := by
  have horderId : ∀ c, j.cut.generator.orderId c = j.generator.orderId c := by
    intro c
    rw [IdempotentOrderIdGenerator.orderId_eq, IdempotentOrderIdGenerator.orderId_eq]
    show 2 ^ 32 * (j.generator.epochBase % 2 ^ 32 % 2 ^ 32) + _ = _
    rw [Nat.mod_mod]
  have hlastId : j.cut.generator.lastId = j.generator.lastId := rfl
  cases p with
  | idle => simp only [orderIdThread, horderId]; rfl
  | loadLast before orderId => rfl
  | loopHead before orderId last =>
      simp only [orderIdThread, horderId, hlastId]
      split_ifs <;> rfl
  | loadAgain before orderId newOrderId =>
      simp only [orderIdThread, hlastId]
      split_ifs <;> rfl
  | exchangeAgain before orderId newOrderId last =>
      simp only [orderIdThread, hlastId]
      split_ifs <;> rfl

/-- The upper half of an epoch makes no difference. -/
theorem returnedIds_mod (epochBase : Nat) :
    returnedIds Tid (epochBase % 2 ^ 32) = returnedIds Tid epochBase := by
  have hrun : ∀ schedule, run (step (orderIdThread Tid))
      (orderIdInit Tid (.new (epochBase % 2 ^ 32))) schedule =
        (run (step (orderIdThread Tid)) (orderIdInit Tid (.new epochBase)) schedule).map
          (State.map Journal.cut) := fun schedule =>
    run_map (step_map orderIdThread_cut) schedule (orderIdInit Tid (.new epochBase))
  refine Set.ext fun id => ⟨?_, ?_⟩
  · rintro ⟨s, ⟨schedule, hs⟩, hid⟩
    rw [hrun schedule] at hs
    obtain ⟨s', hs', rfl⟩ := Option.map_eq_some_iff.mp hs
    exact ⟨s', ⟨schedule, hs'⟩, hid⟩
  · rintro ⟨s, ⟨schedule, hs⟩, hid⟩
    exact ⟨s.map Journal.cut, ⟨schedule, by rw [hrun, hs]; rfl⟩, hid⟩

/-- Every generator returns some identifier. -/
theorem returnedIds_nonempty (t : Tid) (epochBase : Nat) :
    (returnedIds Tid epochBase).Nonempty := by
  have hreached : Reached epochBase (orderIdInit Tid (.new epochBase)) := ⟨[], rfl⟩
  obtain ⟨k, j, orderId, hsolo, hissued⟩ :=
    (hreached.returns_iff t).mpr List.not_mem_nil (fun _ => false) ⟨0, fun _ _ => rfl⟩
  exact ⟨orderId, _, hreached.solo hsolo, hissued ▸ List.mem_cons_self ..⟩

/-- **Generators of two epochs share no identifier exactly when the lower halves differ.** -/
theorem disjoint_returnedIds_iff (t : Tid) (epochBase epochBase' : Nat) :
    Disjoint (returnedIds Tid epochBase) (returnedIds Tid epochBase') ↔
      epochBase % 2 ^ 32 ≠ epochBase' % 2 ^ 32 := by
  constructor
  · intro hdisjoint heq
    rw [← returnedIds_mod epochBase, heq, returnedIds_mod] at hdisjoint
    obtain ⟨id, hid⟩ := returnedIds_nonempty t epochBase'
    exact Set.disjoint_left.mp hdisjoint hid hid
  · intro hne
    refine Set.disjoint_left.mpr ?_
    rintro id ⟨s, hs, hid⟩ ⟨s', hs', hid'⟩
    exact hne ((hs.epochInv.issued id hid).symm.trans (hs'.epochInv.issued id hid'))

/-- **A call that runs alone returns while the largest identifier is not issued, and two epochs
share no identifier if their lower halves differ**; otherwise neither. -/
theorem returns_and_disjoint_iff {epochBase : Nat} (epochBase' : Nat) {s : OrderIdThreads Tid}
    (reached : Reached epochBase s) (t : Tid) :
    (Returns t s.shared ↔ s.shared.generator.largestId ∉ s.shared.ids) ∧
      (Disjoint (returnedIds Tid epochBase) (returnedIds Tid epochBase') ↔
        epochBase % 2 ^ 32 ≠ epochBase' % 2 ^ 32) :=
  ⟨reached.returns_iff t, disjoint_returnedIds_iff t epochBase epochBase'⟩

end Runs

/-- Two new generators, of the epochs one and two. -/
theorem returns_and_disjoint_iff_new :
    (Returns () (orderIdInit Unit (.new 1)).shared ↔
        (IdempotentOrderIdGenerator.new 1).largestId ∉ (orderIdInit Unit (.new 1)).shared.ids) ∧
      (Disjoint (returnedIds Unit 1) (returnedIds Unit 2) ↔ 1 % 2 ^ 32 ≠ 2 % 2 ^ 32) :=
  returns_and_disjoint_iff 2 ⟨[], rfl⟩ ()

/-- Epochs are 64-bit words: one can be used up, and two that are 2^32 apart issue the same
identifiers. -/
theorem not_forall_returns_and_disjoint :
    ¬ (∀ epochBase < 2 ^ 64, ∀ s : OrderIdThreads Unit, Reached epochBase s →
        Returns () s.shared) ∧
      ¬ ∀ epochBase < 2 ^ 64, ∀ epochBase' < 2 ^ 64, epochBase ≠ epochBase' →
        Disjoint (returnedIds Unit epochBase) (returnedIds Unit epochBase') := by
  constructor
  · intro h
    obtain ⟨s, hreached, _, hstuck⟩ := exists_exhausted () 1
    exact hstuck (h 1 (by decide) s hreached)
  · intro h
    have hdisjoint := h 1 (by decide) (2 ^ 32 + 1) (by decide) (by decide)
    exact (disjoint_returnedIds_iff () 1 (2 ^ 32 + 1)).mp hdisjoint (by decide)

end StopTrading.Risk
