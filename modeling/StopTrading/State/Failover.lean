import StopTrading.Library.MachineInt
import StopTrading.Library.Threads

/-!
# Hot and cold instances

Two `FailoverManager`s share a heartbeat file.  A hot manager writes the time into it,
a cold one takes over when it finds no fresh time in it.  The calls are run one access
to the file, the clock or the flag `is_active` at a time; what the snapshot directory
and the file system answer is left open.

* `failoverThread` — the calls; `start` is the first manager inside `initialize_hot`,
  with the second one cold.
* `Engaged` — active, or past the liveness check of a takeover.
* `engaged_failoverStep` — a manager becomes engaged by a takeover that finds no fresh
  heartbeat, and in no other way.
* `atMostOneActive_of_informed` — the managers are never both active as long as every
  takeover that meets an engaged manager finds a fresh heartbeat;
  `exclusive_iff_informed` says that nothing else keeps them apart.

### What is load-bearing

The obstacle is that a takeover is not one operation.  A manager that has found no fresh
heartbeat is not active yet, but nothing will stop it any more.  So the property that can be kept
is about *engaged* managers, which is more than about active ones, and `engaged_failoverStep`
gives the only way to become one.

With it, "no two are engaged" is kept by a step if and only if the step is informed.  The run
lemma is an equivalence, and the safety of the active managers follows from it.

### Design decisions

* `Informed` speaks of the state of the file at the step that reads it, and not of when a
  heartbeat was sent.  `fs::write` empties the file first, so a manager that sends its heartbeats
  in time can still be found dead between the two.
* The answers of the file system and the time between two steps are chosen by the run.
* `promote_to_hot` and `check_primary_alive` share the steps of the check; the program counter
  remembers which of them called.
-/

namespace StopTrading.Failover

open Transition Threads

/-! ## The managers -/

/-- The two managers. -/
inductive Instance where
  | first
  | second
  deriving Repr, DecidableEq

/-- The manager that a manager is not. -/
def Instance.other : Instance → Instance
  | first => second
  | second => first

/-- `FailoverMode`. -/
inductive FailoverMode where
  | hot
  | cold
  | recovering
  deriving Repr, DecidableEq

/-- `FailoverManager`, without its paths and its snapshotter. -/
structure FailoverManager where
  mode : FailoverMode
  lastHeartbeatNs : Nat
  failoverCount : Nat
  isActive : Bool
  recoveryInProgress : Bool
  maxHeartbeatAgeMs : Nat
  deriving Repr, DecidableEq

namespace FailoverManager

/-- `FailoverManager::new`. -/
def new (maxHeartbeatAgeMs : Nat) : FailoverManager where
  mode := .cold
  lastHeartbeatNs := 0
  failoverCount := 0
  isActive := false
  recoveryInProgress := false
  maxHeartbeatAgeMs := maxHeartbeatAgeMs

/-- `initialize_hot`, up to its heartbeat. -/
def initializeHot (m : FailoverManager) : FailoverManager :=
  { m with mode := .hot, isActive := true }

/-- `initialize_cold`. -/
def initializeCold (m : FailoverManager) : FailoverManager :=
  { m with mode := .cold, isActive := false }

/-- `recover_state`, up to the snapshot. -/
def beginRecovery (m : FailoverManager) : FailoverManager :=
  { m with mode := .recovering, recoveryInProgress := true }

/-- `failover_count.fetch_add(1)`. -/
def countFailover (m : FailoverManager) : FailoverManager :=
  { m with failoverCount := (m.failoverCount + 1) % 2 ^ 64 }

/-- The end of `recover_state`, with a snapshot or without any. -/
def activate (m : FailoverManager) : FailoverManager :=
  { m with mode := .hot, isActive := true, recoveryInProgress := false }

end FailoverManager

/-- The heartbeat file: `fs::write` empties it before it writes the time. -/
inductive HeartbeatFile where
  | absent
  | empty
  | stamp (ns : Nat)
  deriving Repr, DecidableEq

/-- The clock, the heartbeat file, and the managers; `calledAt` is when a manager last
became active or called `send_heartbeat`. -/
structure Deployment where
  clock : Nat
  heartbeat : HeartbeatFile
  manager : Instance → FailoverManager
  calledAt : Instance → Nat

namespace Deployment

/-- The reading of the clock, `as_nanos() as u64`. -/
def now (d : Deployment) : Nat := d.clock % 2 ^ 64

/-- Time passes. -/
def advance (d : Deployment) (elapsed : Nat) : Deployment :=
  { d with clock := d.clock + elapsed }

/-- A manager changes. -/
def update (d : Deployment) (i : Instance) (f : FailoverManager → FailoverManager) :
    Deployment :=
  { d with manager := Function.update d.manager i (f (d.manager i)) }

/-- A manager becomes active or calls `send_heartbeat` now. -/
def called (d : Deployment) (i : Instance) : Deployment :=
  { d with calledAt := Function.update d.calledAt i d.clock }

end Deployment

/-- The age of a heartbeat, `(now - last_heartbeat) / 1_000_000`. -/
def ageMs (now lastHeartbeat : Nat) : Nat := MachineInt.u64 (now - lastHeartbeat) / 1000000

/-! ## The calls -/

/-- The calls a manager makes after its first one. -/
inductive Operation where
  | initializeCold
  | sendHeartbeat
  | checkPrimaryAlive
  | promoteToHot
  | gracefulShutdown
  deriving Repr, DecidableEq

/-- The outcome of `load_latest`. -/
inductive LoadOutcome where
  | loaded
  | noSnapshotsFound
  | failed
  deriving Repr, DecidableEq

/-- What a step leaves open: the time since the last step, the call of an idle manager,
and what the file system answers. -/
structure FailoverChoice where
  elapsed : Nat
  operation : Operation
  snapshot : LoadOutcome
  ioOk : Bool
  deriving Repr, DecidableEq

/-- Where a manager is in its call; `promote` tells a check made by `promote_to_hot`
from `check_primary_alive` itself. -/
inductive FailoverPc where
  | idle
  | heartbeatClock
  | heartbeatTruncate (now : Nat)
  | heartbeatWrite (now : Nat)
  | heartbeatStore (now : Nat)
  | checkRead (promote : Bool)
  | checkClock (promote : Bool) (lastHeartbeat : Nat)
  | recover
  | loadLatest
  | finishPromotion
  | removeHeartbeat
  | createSnapshot
  deriving Repr, DecidableEq

/-- What follows a check that found no fresh heartbeat. -/
def afterDead (promote : Bool) : FailoverPc := if promote then .recover else .idle

/-- A call of an idle manager, up to its first access to the file or the clock. -/
def beginCall (i : Instance) (d : Deployment) : Operation → Deployment × FailoverPc
  | .initializeCold => (d.update i .initializeCold, .idle)
  | .sendHeartbeat =>
      (d.called i, if (d.manager i).mode = .hot then .heartbeatClock else .idle)
  | .checkPrimaryAlive => (d, if (d.manager i).mode = .cold then .checkRead false else .idle)
  | .promoteToHot => (d, if (d.manager i).mode = .cold then .checkRead true else .idle)
  | .gracefulShutdown => (d.update i fun m => { m with isActive := false }, .removeHeartbeat)

open FailoverPc in
/-- **A step of a manager** after the time has passed. -/
def failoverStep (i : Instance) (d : Deployment) : FailoverPc → FailoverChoice →
    Deployment × FailoverPc
  | idle, c => beginCall i d c.operation
  | heartbeatClock, _ => (d, heartbeatTruncate d.now)
  | heartbeatTruncate now, c =>
      if c.ioOk then ({ d with heartbeat := .empty }, heartbeatWrite now) else (d, idle)
  | heartbeatWrite now, c =>
      if c.ioOk then ({ d with heartbeat := .stamp now }, heartbeatStore now) else (d, idle)
  | heartbeatStore now, _ => (d.update i fun m => { m with lastHeartbeatNs := now }, idle)
  | checkRead promote, c =>
      match d.heartbeat, c.ioOk with
      | .stamp lastHeartbeat, true => (d, checkClock promote lastHeartbeat)
      | _, _ => (d, afterDead promote)
  | checkClock promote lastHeartbeat, _ =>
      if ageMs d.now lastHeartbeat < (d.manager i).maxHeartbeatAgeMs then (d, idle)
      else (d, afterDead promote)
  | recover, _ => (d.update i .beginRecovery, loadLatest)
  | loadLatest, c =>
      match c.snapshot with
      | .loaded => ((d.update i fun m => m.countFailover.activate).called i, finishPromotion)
      | .noSnapshotsFound => ((d.update i .activate).called i, finishPromotion)
      | .failed => (d.update i fun m => { m with recoveryInProgress := false }, idle)
  | finishPromotion, _ =>
      (d.update i fun m => { m.countFailover with mode := .hot, isActive := true }, idle)
  | removeHeartbeat, c =>
      ({ d with heartbeat := if c.ioOk then .absent else d.heartbeat }, createSnapshot)
  | createSnapshot, c =>
      if c.ioOk then (d.update i fun m => { m with mode := .cold }, idle) else (d, idle)

/-- The calls of a manager as a thread. -/
def failoverThread (i : Instance) (d : Deployment) (p : FailoverPc) (c : FailoverChoice) :
    Option (Deployment × FailoverPc) :=
  some (failoverStep i (d.advance c.elapsed) p c)

/-- Both managers with their calls, and what they share. -/
abbrev Deployed := State Instance FailoverPc Deployment

/-- **The start**: the first manager has made itself active in `initialize_hot` and is
about to write its first heartbeat; the second one is cold. -/
def start (maxHeartbeatAgeMs : Instance → Nat) (clock : Nat) (heartbeat : HeartbeatFile) :
    Deployed where
  shared :=
    { clock := clock
      heartbeat := heartbeat
      manager := fun i =>
        match i with
        | .first => (FailoverManager.new (maxHeartbeatAgeMs .first)).initializeHot
        | .second => (FailoverManager.new (maxHeartbeatAgeMs .second)).initializeCold
      calledAt := fun _ => clock }
  pc := fun i =>
    match i with
    | .first => .heartbeatClock
    | .second => .idle

/-! ## Activity -/

/-- A manager is **active**: it trades. -/
def Active (s : Deployed) (i : Instance) : Prop := (s.shared.manager i).isActive = true

/-- **At most one trading instance.** -/
def AtMostOneActive (s : Deployed) : Prop := ¬ (Active s .first ∧ Active s .second)

/-- Every active manager has called `send_heartbeat`, or become active, at most
`max_heartbeat_age_ms` ago. -/
def Timely (s : Deployed) : Prop :=
  ∀ i, Active s i →
    s.shared.clock ≤ s.shared.calledAt i + (s.shared.manager i).maxHeartbeatAgeMs * 1000000

/-- The places of `promote_to_hot` after its liveness check. -/
def FailoverPc.TakingOver : FailoverPc → Prop
  | recover | loadLatest | finishPromotion => True
  | _ => False

/-- A manager is **engaged**: active, or taking over. -/
def Engaged (s : Deployed) (i : Instance) : Prop := Active s i ∨ (s.pc i).TakingOver

/-- No two managers are engaged. -/
def Exclusive (s : Deployed) : Prop := ¬ (Engaged s .first ∧ Engaged s .second)

/-- The check of a takeover finds, at this step, **no fresh heartbeat**: the file cannot be
read or holds no time, or the time read from it is too old. -/
def FindsDead (i : Instance) (d : Deployment) (c : FailoverChoice) : FailoverPc → Prop
  | .checkRead true => ¬ (c.ioOk = true ∧ ∃ ns, d.heartbeat = .stamp ns)
  | .checkClock true lastHeartbeat =>
      ¬ ageMs d.now lastHeartbeat < (d.manager i).maxHeartbeatAgeMs
  | _ => False

/-- A takeover is **informed**: while the other manager is engaged, its check finds a
fresh heartbeat. -/
def Informed (s : Deployed) (a : Instance × FailoverChoice) (_ : Deployed) : Prop :=
  Engaged s a.1.other →
    ¬ FindsDead a.1 (s.shared.advance a.2.elapsed) a.2 (s.pc a.1)

instance (s : Deployed) (i : Instance) : Decidable (Active s i) :=
  inferInstanceAs (Decidable (_ = _))

instance (s : Deployed) : Decidable (AtMostOneActive s) := inferInstanceAs (Decidable (¬ _))

instance (s : Deployed) : Decidable (Timely s) :=
  decidable_of_iff
    ((Active s .first → s.shared.clock ≤ s.shared.calledAt .first +
        (s.shared.manager .first).maxHeartbeatAgeMs * 1000000) ∧
      (Active s .second → s.shared.clock ≤ s.shared.calledAt .second +
        (s.shared.manager .second).maxHeartbeatAgeMs * 1000000))
    ⟨fun h i => match i with | .first => h.1 | .second => h.2, fun h => ⟨h .first, h .second⟩⟩

instance : DecidablePred FailoverPc.TakingOver
  | .recover | .loadLatest | .finishPromotion => isTrue trivial
  | .idle | .heartbeatClock | .heartbeatTruncate _ | .heartbeatWrite _ | .heartbeatStore _
  | .checkRead _ | .checkClock _ _ | .removeHeartbeat | .createSnapshot => isFalse not_false

instance (s : Deployed) (i : Instance) : Decidable (Engaged s i) :=
  inferInstanceAs (Decidable (_ ∨ _))

instance : ∀ file : HeartbeatFile, Decidable (∃ ns, file = .stamp ns)
  | .stamp ns => isTrue ⟨ns, rfl⟩
  | .absent | .empty => isFalse fun ⟨_, h⟩ => by cases h

instance (i : Instance) (d : Deployment) (c : FailoverChoice) (p : FailoverPc) :
    Decidable (FindsDead i d c p) := by
  unfold FindsDead
  split <;> infer_instance

instance (s s' : Deployed) (a : Instance × FailoverChoice) : Decidable (Informed s a s') :=
  inferInstanceAs (Decidable (_ → _))

/-! ## Steps -/

namespace Deployment

variable (d : Deployment) (i : Instance)

/-- A change of one manager -/
@[simp]
theorem manager_update_self (f : FailoverManager → FailoverManager) :
    (d.update i f).manager i = f (d.manager i) := Function.update_self ..

/-- leaves the other as it is; -/
@[simp]
theorem manager_update_of_ne {j : Instance} (h : j ≠ i) (f : FailoverManager → FailoverManager) :
    (d.update i f).manager j = d.manager j := Function.update_of_ne h ..

/-- a note of the time changes neither, -/
@[simp]
theorem manager_called : (d.called i).manager = d.manager := rfl

/-- and neither does the time itself. -/
@[simp]
theorem manager_advance (elapsed : Nat) : (d.advance elapsed).manager = d.manager := rfl

end Deployment

/-- A step leaves the other manager alone. -/
theorem manager_failoverStep_of_ne {i j : Instance} (h : j ≠ i) (d : Deployment) (p : FailoverPc)
    (c : FailoverChoice) : (failoverStep i d p c).1.manager j = d.manager j := by
  cases p with
  | idle => cases hop : c.operation <;> simp [failoverStep, beginCall, hop, h]
  | checkRead promote => simp only [failoverStep]; split <;> rfl
  | loadLatest => cases hload : c.snapshot <;> simp [failoverStep, hload, h]
  | heartbeatTruncate now | heartbeatWrite now | createSnapshot =>
      cases hio : c.ioOk <;> simp [failoverStep, hio, h]
  | checkClock promote lastHeartbeat => simp only [failoverStep]; split <;> rfl
  | heartbeatClock | removeHeartbeat => rfl
  | heartbeatStore | recover | finishPromotion => simp [failoverStep, h]

/-- Only a check of `promote_to_hot` leads to a takeover. -/
theorem eq_true_of_takingOver {promote : Bool} (h : (afterDead promote).TakingOver) :
    promote = true := by
  cases promote with
  | false => exact h.elim
  | true => rfl

/-- **A manager becomes engaged** at a takeover that finds no fresh heartbeat, and in no
other way. -/
theorem engaged_failoverStep (i : Instance) (d : Deployment) (p : FailoverPc) (c : FailoverChoice)
    (h : ((failoverStep i d p c).1.manager i).isActive = true ∨
      (failoverStep i d p c).2.TakingOver) :
    ((d.manager i).isActive = true ∨ p.TakingOver) ∨ FindsDead i d c p := by
  cases p with
  | recover | loadLatest | finishPromotion => exact Or.inl (Or.inr trivial)
  | idle =>
      -- no call starts beyond the check, and none but a takeover activates
      cases hop : c.operation with
      | initializeCold =>
          simp [failoverStep, beginCall, hop, FailoverManager.initializeCold,
            FailoverPc.TakingOver] at h
      | gracefulShutdown => simp [failoverStep, beginCall, hop, FailoverPc.TakingOver] at h
      | sendHeartbeat | checkPrimaryAlive | promoteToHot =>
          simp only [failoverStep, beginCall, hop, Deployment.manager_called] at h
          refine Or.inl (Or.inl (h.resolve_right ?_))
          split <;> exact not_false
  | checkRead promote =>
      simp only [failoverStep] at h
      split at h
      · exact Or.inl (Or.inl (h.resolve_right not_false))
      · rename_i hdead
        refine h.imp Or.inl fun htaking => ?_
        obtain rfl := eq_true_of_takingOver htaking
        exact fun ⟨hio, ns, hstamp⟩ => hdead ns hstamp hio
  | checkClock promote lastHeartbeat =>
      simp only [failoverStep] at h
      split at h
      · exact Or.inl (Or.inl (h.resolve_right not_false))
      · rename_i hdead
        refine h.imp Or.inl fun htaking => ?_
        obtain rfl := eq_true_of_takingOver htaking
        exact hdead
  | heartbeatTruncate now | heartbeatWrite now | createSnapshot =>
      refine Or.inl (Or.inl ?_)
      simp only [failoverStep] at h
      split at h <;> simpa [FailoverPc.TakingOver] using h
  | heartbeatClock | removeHeartbeat => exact Or.inl (Or.inl (h.resolve_right not_false))
  | heartbeatStore now =>
      refine Or.inl (Or.inl ?_)
      simpa [failoverStep, FailoverPc.TakingOver] using h

/-- A takeover that finds no fresh heartbeat goes on. -/
theorem failoverStep_of_findsDead {i : Instance} {d : Deployment} {p : FailoverPc}
    {c : FailoverChoice} (h : FindsDead i d c p) : (failoverStep i d p c).2 = .recover := by
  cases p with
  | checkRead promote =>
      cases promote with
      | false => exact h.elim
      | true =>
          simp only [failoverStep]
          split
          · rename_i ns hstamp hio
            exact absurd ⟨hio, ns, hstamp⟩ h
          · rfl
  | checkClock promote lastHeartbeat =>
      cases promote with
      | false => exact h.elim
      | true =>
          simp only [failoverStep]
          rw [if_neg h]
          rfl
  | idle | heartbeatClock | heartbeatTruncate | heartbeatWrite | heartbeatStore | recover
  | loadLatest | finishPromotion | removeHeartbeat | createSnapshot => exact h.elim

section Run

variable {s s' : Deployed} {a : Instance × FailoverChoice}

/-- A step is one of `failoverStep`, with the other call where it was. -/
theorem step_spec (hstep : step failoverThread s a = some s') :
    s'.shared = (failoverStep a.1 (s.shared.advance a.2.elapsed) (s.pc a.1) a.2).1 ∧
      s'.pc a.1 = (failoverStep a.1 (s.shared.advance a.2.elapsed) (s.pc a.1) a.2).2 ∧
      ∀ j, j ≠ a.1 → s'.pc j = s.pc j := by
  obtain ⟨sh, p, hprog, rfl⟩ := step_eq_some.mp hstep
  obtain ⟨rfl, rfl⟩ := Prod.mk.inj (Option.some.inj hprog)
  exact ⟨rfl, Function.update_self .., fun j hj => Function.update_of_ne hj ..⟩

/-- A step leaves the engagement of the other manager alone. -/
theorem engaged_other (hstep : step failoverThread s a = some s') :
    Engaged s' a.1.other ↔ Engaged s a.1.other := by
  have hne : a.1.other ≠ a.1 := by cases a.1 <;> decide
  obtain ⟨hshared, -, hpc⟩ := step_spec hstep
  unfold Engaged Active
  rw [hshared, hpc _ hne, manager_failoverStep_of_ne hne, Deployment.manager_advance]

/-- A step engages its manager only by a takeover, -/
theorem engaged_self (hstep : step failoverThread s a = some s') (h : Engaged s' a.1) :
    Engaged s a.1 ∨ FindsDead a.1 (s.shared.advance a.2.elapsed) a.2 (s.pc a.1) := by
  obtain ⟨hshared, hpc, -⟩ := step_spec hstep
  unfold Engaged Active at h
  rw [hshared, hpc] at h
  exact engaged_failoverStep _ _ _ _ h

/-- and a takeover that finds no fresh heartbeat does. -/
theorem engaged_of_findsDead (hstep : step failoverThread s a = some s')
    (h : FindsDead a.1 (s.shared.advance a.2.elapsed) a.2 (s.pc a.1)) : Engaged s' a.1 := by
  obtain ⟨-, hpc, -⟩ := step_spec hstep
  refine Or.inr ?_
  rw [hpc, failoverStep_of_findsDead h]
  trivial

/-- Exclusion, seen from one of the managers. -/
theorem exclusive_iff (i : Instance) :
    Exclusive s ↔ ¬ (Engaged s i ∧ Engaged s i.other) := by
  cases i with
  | first => exact Iff.rfl
  | second => exact not_congr and_comm

/-- **An informed step keeps the managers apart.** -/
theorem exclusive_step (h : Exclusive s) (hstep : step failoverThread s a = some s')
    (hinformed : Informed s a s') : Exclusive s' := by
  rw [exclusive_iff a.1] at h ⊢
  rintro ⟨hself, hother⟩
  rw [engaged_other hstep] at hother
  rcases engaged_self hstep hself with hbefore | hdead
  · exact h ⟨hbefore, hother⟩
  · exact hinformed hother hdead

/-- Only an informed step does. -/
theorem informed_of_exclusive (hstep : step failoverThread s a = some s') (h : Exclusive s') :
    Informed s a s' := by
  rw [exclusive_iff a.1] at h
  intro hother hdead
  exact h ⟨engaged_of_findsDead hstep hdead, (engaged_other hstep).mpr hother⟩

end Run

/-- At the start the first manager is engaged and the second is not. -/
theorem exclusive_start (maxHeartbeatAgeMs : Instance → Nat) (clock : Nat)
    (heartbeat : HeartbeatFile) : Exclusive (start maxHeartbeatAgeMs clock heartbeat) := by
  rintro ⟨-, hactive | htaking⟩
  · exact Bool.false_ne_true hactive
  · exact htaking

variable (maxHeartbeatAgeMs : Instance → Nat) (clock : Nat) (heartbeat : HeartbeatFile)
variable (actions : List (Instance × FailoverChoice))

/-- No two managers are engaged along a run exactly when all of its takeovers are
informed. -/
theorem exclusive_iff_informed :
    AllSteps (step failoverThread) Informed (start maxHeartbeatAgeMs clock heartbeat) actions ↔
      AllStates (step failoverThread) Exclusive (start maxHeartbeatAgeMs clock heartbeat)
        actions :=
  allSteps_iff_allStates (fun _ exclusive => exclusive)
    (fun _ _ _ exclusive hstep hinformed => exclusive_step exclusive hstep hinformed)
    (fun _ _ _ _ hstep exclusive' => informed_of_exclusive hstep exclusive')
    (exclusive_start maxHeartbeatAgeMs clock heartbeat) actions

/-- **At most one manager is active**, in every interleaving, as long as every takeover is
informed. -/
theorem atMostOneActive_of_informed
    (h : AllSteps (step failoverThread) Informed (start maxHeartbeatAgeMs clock heartbeat)
      actions) :
    AllStates (step failoverThread) AtMostOneActive (start maxHeartbeatAgeMs clock heartbeat)
      actions :=
  ((exclusive_iff_informed maxHeartbeatAgeMs clock heartbeat actions).mp h).imp
    fun _ hexclusive ⟨hfirst, hsecond⟩ => hexclusive ⟨Or.inl hfirst, Or.inl hsecond⟩

/-! ## Two runs -/

/-- Five seconds, for both managers. -/
def fiveSeconds : Instance → Nat := fun _ => 5000

/-- A step of a manager after some milliseconds, with no snapshot in the directory. -/
def after (ms : Nat) (i : Instance) (operation : Operation) : Instance × FailoverChoice :=
  (i, ⟨ms * 1000000, operation, .noSnapshotsFound, true⟩)

/-- The first manager writes its heartbeat; a second later the second one is refused. -/
def refused : List (Instance × FailoverChoice) :=
  List.replicate 4 (after 0 .first .sendHeartbeat) ++
    List.replicate 3 (after 500 .second .promoteToHot)

/-- The second manager is refused, and stays cold. -/
theorem atMostOneActive_refused :
    AllStates (step failoverThread) AtMostOneActive (start fiveSeconds 1000 .absent) refused :=
  atMostOneActive_of_informed fiveSeconds 1000 .absent refused (by decide +kernel)

/-- The second manager takes over before the first one has written its first heartbeat. -/
def takenOver : List (Instance × FailoverChoice) :=
  List.replicate 4 (after 1 .second .promoteToHot)

/-- **Both managers can be active**, with timely heartbeats. -/
theorem not_forall_atMostOneActive :
    ¬ ∀ (maxHeartbeatAgeMs : Instance → Nat) (clock : Nat) (heartbeat : HeartbeatFile)
        (actions : List (Instance × FailoverChoice)),
      AllStates (step failoverThread) Timely (start maxHeartbeatAgeMs clock heartbeat) actions →
      AllStates (step failoverThread) AtMostOneActive (start maxHeartbeatAgeMs clock heartbeat)
        actions := by
  intro h
  have hrun := h fiveSeconds 1000 .absent takenOver (by decide +kernel)
  revert hrun
  decide +kernel

end StopTrading.Failover
