import StopTrading.Library.MachineInt
import StopTrading.Library.Threads

/-!
# The global kill switch

`GlobalKillSwitch` is a set of atomic words.  `triggerThread` runs `trigger` and
`recordThread` runs `record_cancellation`, one atomic operation (or one reading of
the clock) at a time; beside the words the shared state keeps what the calls have
returned.

* `oneWinner_iff_unraced` — `trigger` loads the kill flag and stores it in two
  operations.  One call wins exactly in the runs in which no call loads the flag
  unset while another stands between the two.
* `RecordThreads.exact_iff` — the cancellation state is right for every
  number of reports; the pending counter is decremented without a floor, so it is right
  until the first surplus report (and again when it has wrapped all the way round).

For the first, a run is in one of four phases (`Phase`): nobody has seen the flag
unset, one call has, that call has set it and is writing its record, that call has
returned.  A race leads out of them for good (`Contested`).

### What is load-bearing

A call is *committed* once it has seen the flag unset: from then on nothing can keep it from
returning `true`.  In an unraced run at most one call is ever committed, so the run can be told
as a story in four phases, and in each of them the invariant says exactly what the words hold.
Most operations are by calls that are not committed, and they do nothing to the switch
(`uncommitted_effect`).

The other direction needs an invariant too, since a race in the middle of a run must still show
when everything has come to rest.  `Contested` counts the committed calls and the winners
together, and that number never falls.

### Design decisions

* Each atomic access is a step, and the record takes five stores.  A reader between them may see
  a switch that is on without a source; the result speaks of the state at rest only.
* The two halves are two systems.  The only word that both calls write is the state, and each
  result is about runs of one of them.
-/

namespace StopTrading.Safety

open Transition Threads

/-- `KillSource`. -/
inductive KillSource where
  | manualUI
  | panicDetected
  | riskThreshold
  | circuitBreaker
  | networkFailure
  | exchangeDisconnect
  | heartbeatFailure
  | marginCall
  | positionLimit
  | drawdownLimit
  | systemShutdown
  deriving Repr, DecidableEq

/-- `source as u64`. -/
def KillSource.toU64 : KillSource → Nat
  | .manualUI => 0
  | .panicDetected => 1
  | .riskThreshold => 2
  | .circuitBreaker => 3
  | .networkFailure => 4
  | .exchangeDisconnect => 5
  | .heartbeatFailure => 6
  | .marginCall => 7
  | .positionLimit => 8
  | .drawdownLimit => 9
  | .systemShutdown => 10

/-- `KillState`. -/
inductive KillState where
  | armed
  | triggered
  | cancelling
  | cancelled
  | halted
  | restarting
  | ready
  deriving Repr, DecidableEq

/-- `state as u64`. -/
def KillState.toU64 : KillState → Nat
  | .armed => 0
  | .triggered => 1
  | .cancelling => 2
  | .cancelled => 3
  | .halted => 4
  | .restarting => 5
  | .ready => 6

/-- `GlobalKillSwitch`, the words its calls read and write. -/
structure GlobalKillSwitch where
  killFlag : Bool
  state : Nat
  triggerSource : Nat
  killCount : Nat
  lastKillNs : Nat
  ordersPending : Nat
  ordersCancelled : Nat
  isArmed : Bool
  cooldownNs : Nat
  cooldownStartNs : Nat
  deriving Repr, DecidableEq

namespace GlobalKillSwitch

/-- `new`. -/
def new (cooldownMs : Nat) : GlobalKillSwitch where
  killFlag := false
  state := KillState.armed.toU64
  triggerSource := 0
  killCount := 0
  lastKillNs := 0
  ordersPending := 0
  ordersCancelled := 0
  isArmed := true
  cooldownNs := cooldownMs * 1000000 % 2 ^ 64
  cooldownStartNs := 0

/-- `get_state`. -/
def getState (k : GlobalKillSwitch) : KillState :=
  match k.state with
  | 0 => .armed
  | 1 => .triggered
  | 2 => .cancelling
  | 3 => .cancelled
  | 4 => .halted
  | 5 => .restarting
  | 6 => .ready
  | _ => .halted

/-- `get_trigger_source`. -/
def getTriggerSource (k : GlobalKillSwitch) : KillSource :=
  match k.triggerSource with
  | 0 => .manualUI
  | 1 => .panicDetected
  | 2 => .riskThreshold
  | 3 => .circuitBreaker
  | 4 => .networkFailure
  | 5 => .exchangeDisconnect
  | 6 => .heartbeatFailure
  | 7 => .marginCall
  | 8 => .positionLimit
  | 9 => .drawdownLimit
  | 10 => .systemShutdown
  | _ => .manualUI

/-- `begin_cancellation`. -/
def beginCancellation (k : GlobalKillSwitch) (orderCount : Nat) : GlobalKillSwitch :=
  { k with state := KillState.cancelling.toU64, ordersPending := orderCount }

/-- The source that was stored is the source that is read. -/
theorem getTriggerSource_of_toU64 {k : GlobalKillSwitch} {source : KillSource}
    (h : k.triggerSource = source.toU64) : k.getTriggerSource = source := by
  rw [getTriggerSource, h]
  cases source <;> rfl

/-- Only the code of `Cancelled` is read as `Cancelled`. -/
theorem getState_eq_cancelled {k : GlobalKillSwitch} :
    k.getState = .cancelled ↔ k.state = KillState.cancelled.toU64 := by
  unfold getState
  split <;> simp_all [KillState.toU64]

end GlobalKillSwitch

/-! ## Triggering -/

/-- The switch, and the source and result of every `trigger` that has returned. -/
structure TriggerShared where
  switch : GlobalKillSwitch
  returned : List (KillSource × Bool)
  deriving Repr, DecidableEq

namespace TriggerShared

/-- A call returns. -/
def finish (sh : TriggerShared) (source : KillSource) (result : Bool) : TriggerShared :=
  { sh with returned := sh.returned ++ [(source, result)] }

/-- The calls that returned `true`. -/
def winners (sh : TriggerShared) : List (KillSource × Bool) := sh.returned.filter (·.2)

end TriggerShared

/-- Where a thread is in `trigger`, by the operation it performs next. -/
inductive TriggerPc where
  | idle
  | loadFlag (source : KillSource)
  | storeFlag (source : KillSource)
  | storeState (source : KillSource)
  | storeSource (source : KillSource)
  | readClock (source : KillSource)
  | storeLastKill (source : KillSource) (nowNs : Nat)
  | addCount (source : KillSource) (nowNs : Nat)
  | storeCooldownStart (source : KillSource) (nowNs : Nat)
  deriving Repr, DecidableEq

/-- The call an idle thread makes, and what the clock shows. -/
inductive TriggerChoice where
  | trigger (source : KillSource)
  | goOn
  | clock (nowNs : Nat)
  deriving Repr, DecidableEq

/-- **One atomic operation of `trigger`.** -/
def triggerThread {Tid : Type} (_ : Tid) (sh : TriggerShared) :
    TriggerPc → TriggerChoice → Option (TriggerShared × TriggerPc)
  | .idle, .trigger source =>
      if sh.switch.isArmed then some (sh, .loadFlag source)
      else some (sh.finish source false, .idle)
  | .loadFlag source, .goOn =>
      if sh.switch.killFlag then some (sh.finish source false, .idle)
      else some (sh, .storeFlag source)
  | .storeFlag source, .goOn =>
      some ({ sh with switch := { sh.switch with killFlag := true } }, .storeState source)
  | .storeState source, .goOn =>
      some
        ({ sh with switch := { sh.switch with state := KillState.triggered.toU64 } },
          .storeSource source)
  | .storeSource source, .goOn =>
      some
        ({ sh with switch := { sh.switch with triggerSource := source.toU64 } },
          .readClock source)
  | .readClock source, .clock nowNs => some (sh, .storeLastKill source nowNs)
  | .storeLastKill source nowNs, .goOn =>
      some ({ sh with switch := { sh.switch with lastKillNs := nowNs } }, .addCount source nowNs)
  | .addCount source nowNs, .goOn =>
      some
        ({ sh with switch := { sh.switch with killCount := (sh.switch.killCount + 1) % 2 ^ 64 } },
          .storeCooldownStart source nowNs)
  | .storeCooldownStart source nowNs, .goOn =>
      some
        (TriggerShared.finish
          { sh with switch := { sh.switch with cooldownStartNs := nowNs } } source true, .idle)
  | _, _ => none

/-- Threads and the switch they trigger. -/
abbrev TriggerThreads (Tid : Type) := State Tid TriggerPc TriggerShared

/-- No call running, none returned. -/
def TriggerThreads.start (Tid : Type) (k : GlobalKillSwitch) : TriggerThreads Tid :=
  ⟨⟨k, []⟩, fun _ => .idle⟩

/-! ### What is promised, and when -/

/-- The call has seen the flag unset, and so will return `true`. -/
def TriggerPc.committed : TriggerPc → Bool
  | .idle => false
  | .loadFlag _ => false
  | _ => true

namespace TriggerThreads

variable {Tid : Type}

/-- All calls have returned. -/
def AtRest (s : TriggerThreads Tid) : Prop := ∀ t, s.pc t = .idle

/-- **One winner**: a single call returned `true`, the count has risen by one from
`old`, and the recorded source is the winner's. -/
def OneWinner (old : Nat) (s : TriggerThreads Tid) : Prop :=
  ∃ source, s.shared.winners = [(source, true)] ∧
    s.shared.switch.killCount = (old + 1) % 2 ^ 64 ∧
    s.shared.switch.getTriggerSource = source

/-- **The step races with no call**: a load of the unset flag finds no other call
between its load and its store. -/
def Unraced (s : TriggerThreads Tid) (a : Tid × TriggerChoice) (_ : TriggerThreads Tid) : Prop :=
  ∀ source, s.pc a.1 = .loadFlag source → s.shared.switch.killFlag = false →
    ∀ u, u ≠ a.1 → ∀ other, s.pc u ≠ .storeFlag other

end TriggerThreads

/-! ### What an operation does -/

/-- One operation of a call that is not committed. -/
inductive UncommittedEffect (sh : TriggerShared) (p : TriggerPc) (sh' : TriggerShared)
    (p' : TriggerPc) : Prop where
  | silent (shared : sh' = sh) (pc' : p'.committed = false)
  | refused (source : KillSource) (shared : sh' = sh.finish source false)
      (pc' : p'.committed = false)
      (reason : sh.switch.isArmed = false ∨ sh.switch.killFlag = true)
  | commit (source : KillSource) (shared : sh' = sh) (pc : p = .loadFlag source)
      (pc' : p' = .storeFlag source) (unset : sh.switch.killFlag = false)

/-- **What an operation of an uncommitted call does.** -/
theorem uncommitted_effect {Tid : Type} {t : Tid} {sh sh' : TriggerShared} {p p' : TriggerPc}
    {c : TriggerChoice} (hp : p.committed = false)
    (h : triggerThread t sh p c = some (sh', p')) : UncommittedEffect sh p sh' p' := by
  cases p with
  | idle =>
      cases c with
      | trigger source =>
          simp only [triggerThread] at h
          split at h
          · cases h; exact .silent rfl rfl
          · rename_i hdisarmed
            cases h; exact .refused source rfl rfl (Or.inl (Bool.not_eq_true _ ▸ hdisarmed))
      | _ => cases h
  | loadFlag source =>
      cases c with
      | goOn =>
          simp only [triggerThread] at h
          split at h
          · rename_i hkilled
            cases h; exact .refused source rfl rfl (Or.inr hkilled)
          · rename_i hunset
            cases h; exact .commit source rfl rfl rfl (Bool.not_eq_true _ ▸ hunset)
      | _ => cases h
  | _ => cases hp

/-- A committed call stays so until it returns `true`. -/
theorem committed_effect {Tid : Type} {t : Tid} {sh sh' : TriggerShared} {p p' : TriggerPc}
    {c : TriggerChoice} (hp : p.committed = true)
    (h : triggerThread t sh p c = some (sh', p')) :
    sh'.switch.isArmed = sh.switch.isArmed ∧
      ((p'.committed = true ∧ sh'.returned = sh.returned) ∨
        ∃ source, sh'.winners = sh.winners ++ [(source, true)]) := by
  cases p with
  | idle | loadFlag => cases hp
  | storeFlag | storeState | storeSource | storeLastKill | addCount =>
      cases c with
      | goOn => cases h; exact ⟨rfl, Or.inl ⟨rfl, rfl⟩⟩
      | _ => cases h
  | readClock =>
      cases c with
      | clock nowNs => cases h; exact ⟨rfl, Or.inl ⟨rfl, rfl⟩⟩
      | _ => cases h
  | storeCooldownStart source nowNs =>
      cases c with
      | goOn => cases h; exact ⟨rfl, Or.inr ⟨source, List.filter_append _ _⟩⟩
      | _ => cases h

/-- What the winner has recorded, by where it is. -/
def TriggerPc.Recording (old : Nat) (source : KillSource) (k : GlobalKillSwitch) :
    TriggerPc → Prop
  | .storeState src => src = source ∧ k.killCount = old
  | .storeSource src => src = source ∧ k.killCount = old
  | .readClock src => src = source ∧ k.killCount = old ∧ k.triggerSource = source.toU64
  | .storeLastKill src _ => src = source ∧ k.killCount = old ∧ k.triggerSource = source.toU64
  | .addCount src _ => src = source ∧ k.killCount = old ∧ k.triggerSource = source.toU64
  | .storeCooldownStart src _ =>
      src = source ∧ k.killCount = (old + 1) % 2 ^ 64 ∧ k.triggerSource = source.toU64
  | _ => False

namespace TriggerThreads

variable {Tid : Type}

/-- No thread but `t` is committed. -/
def OnlyCommitted (s : TriggerThreads Tid) (t : Tid) : Prop :=
  ∀ u, u ≠ t → (s.pc u).committed = false

/-- **The phases of an unraced run** of a switch whose count was `old`. -/
inductive Phase (old : Nat) (s : TriggerThreads Tid) : Prop where
  | untouched (unset : s.shared.switch.killFlag = false) (returned : s.shared.returned = [])
      (count : s.shared.switch.killCount = old) (pcs : ∀ t, (s.pc t).committed = false)
  | claimed (t : Tid) (source : KillSource) (unset : s.shared.switch.killFlag = false)
      (returned : s.shared.returned = []) (count : s.shared.switch.killCount = old)
      (pc : s.pc t = .storeFlag source) (others : s.OnlyCommitted t)
  | recording (t : Tid) (source : KillSource) (set : s.shared.switch.killFlag = true)
      (winners : s.shared.winners = []) (pc : (s.pc t).Recording old source s.shared.switch)
      (others : s.OnlyCommitted t)
  | recorded (source : KillSource) (set : s.shared.switch.killFlag = true)
      (winners : s.shared.winners = [(source, true)])
      (count : s.shared.switch.killCount = (old + 1) % 2 ^ 64)
      (triggerSource : s.shared.switch.triggerSource = source.toU64)
      (pcs : ∀ t, (s.pc t).committed = false)

/-- The invariant of unraced runs. -/
structure Inv (old : Nat) (s : TriggerThreads Tid) : Prop where
  armed : s.shared.switch.isArmed = true
  phase : s.Phase old

/-- A switch that is armed and not on is untouched. -/
theorem inv_start {k : GlobalKillSwitch} (armed : k.isArmed = true) (unset : k.killFlag = false) :
    (start Tid k).Inv k.killCount :=
  ⟨armed, .untouched unset rfl rfl fun _ => rfl⟩

/-- Where nobody is inside a call, the run is over or has not begun. -/
theorem Inv.oneWinner {old : Nat} {s : TriggerThreads Tid} (inv : s.Inv old) (rest : s.AtRest)
    (called : s.shared.returned ≠ []) : s.OneWinner old := by
  cases inv.phase with
  | untouched unset returned count pcs => exact absurd returned called
  | claimed t source unset returned count pc others =>
      rw [rest t] at pc
      cases pc
  | recording t source set winners pc others =>
      rw [rest t] at pc
      exact pc.elim
  | recorded source set winners count triggerSource pcs =>
      exact ⟨source, winners, count, GlobalKillSwitch.getTriggerSource_of_toU64 triggerSource⟩

variable [DecidableEq Tid]

omit [DecidableEq Tid] in
/-- Where a committed thread is, a thread that is not committed is not. -/
theorem ne_of_committed {s : TriggerThreads Tid} {t u : Tid} (ht : (s.pc t).committed = false)
    (hu : (s.pc u).committed = true) : u ≠ t := by
  rintro rfl
  rw [ht] at hu
  cases hu

omit [DecidableEq Tid] in
/-- A call that writes the record is committed. -/
theorem committed_of_recording {old : Nat} {source : KillSource} {k : GlobalKillSwitch}
    {p : TriggerPc} (h : p.Recording old source k) : p.committed = true := by
  cases p with
  | idle | loadFlag => exact h.elim
  | _ => rfl

/-- The phase stays when a thread moves that is not committed before or after, and
does not touch the switch. -/
theorem Phase.move {old : Nat} {s : TriggerThreads Tid} (phase : s.Phase old) {t : Tid}
    {sh : TriggerShared} {p : TriggerPc} (hswitch : sh.switch = s.shared.switch)
    (hwinners : sh.winners = s.shared.winners)
    (hreturned : s.shared.switch.killFlag = false → sh.returned = s.shared.returned)
    (hpc : (s.pc t).committed = false) (hpc' : p.committed = false) :
    Phase old ⟨sh, Function.update s.pc t p⟩ := by
  have hothers : ∀ v, s.OnlyCommitted v → OnlyCommitted ⟨sh, Function.update s.pc t p⟩ v :=
    fun v others => forall_pc_update
      (Q := fun u (q : TriggerPc) => u ≠ v → q.committed = false) (fun _ => hpc')
      fun u _ hu => others u hu
  have hnone : (∀ u, u ≠ t → (s.pc u).committed = false) →
      ∀ u, (Function.update s.pc t p u).committed = false :=
    forall_pc_update (Q := fun _ (q : TriggerPc) => q.committed = false) hpc'
  cases phase with
  | untouched unset returned count pcs =>
      exact .untouched (hswitch ▸ unset) ((hreturned unset).trans returned) (hswitch ▸ count)
        (hnone fun u _ => pcs u)
  | claimed u source unset returned count pc others =>
      have hu : u ≠ t := ne_of_committed hpc (by rw [pc]; rfl)
      exact .claimed u source (hswitch ▸ unset) ((hreturned unset).trans returned)
        (hswitch ▸ count) ((Function.update_of_ne hu p s.pc).trans pc) (hothers u others)
  | recording u source set winners pc others =>
      have hu : u ≠ t := ne_of_committed hpc (committed_of_recording pc)
      refine .recording u source (hswitch ▸ set) (hwinners.trans winners) ?_ (hothers u others)
      show (Function.update s.pc t p u).Recording old source sh.switch
      rw [Function.update_of_ne hu, hswitch]
      exact pc
  | recorded source set winners count triggerSource pcs =>
      exact .recorded source (hswitch ▸ set) (hwinners.trans winners) (hswitch ▸ count)
        (hswitch ▸ triggerSource) (hnone fun u _ => pcs u)

/-- A call that is not committed keeps the phase, or is the first to commit. -/
theorem Phase.uncommitted_step {old : Nat} {s : TriggerThreads Tid} (phase : s.Phase old)
    {t : Tid} {sh : TriggerShared} {p : TriggerPc} (hpc : (s.pc t).committed = false)
    (armed : s.shared.switch.isArmed = true) (effect : UncommittedEffect s.shared (s.pc t) sh p)
    (hrace : ∀ source, s.pc t = .loadFlag source → s.shared.switch.killFlag = false →
      ∀ u, u ≠ t → ∀ other, s.pc u ≠ .storeFlag other) :
    Phase old ⟨sh, Function.update s.pc t p⟩ := by
  cases effect with
  | silent shared pc' =>
      subst shared
      exact phase.move rfl rfl (fun _ => rfl) hpc pc'
  | refused source shared pc' reason =>
      subst shared
      have set : s.shared.switch.killFlag = true := reason.resolve_left (by simp [armed])
      exact phase.move rfl (by simp [TriggerShared.winners, TriggerShared.finish])
        (fun unset => absurd set (by simp [unset])) hpc pc'
  | commit source shared pc pc' unset =>
      subst shared pc'
      cases phase with
      | untouched _ returned count pcs =>
          exact .claimed t source unset returned count (Function.update_self t _ s.pc)
            fun u hu => (congrArg _ (Function.update_of_ne hu _ s.pc)).trans (pcs u)
      | claimed u other _ returned count pcu others =>
          have hu : u ≠ t := ne_of_committed hpc (by rw [pcu]; rfl)
          exact absurd pcu (hrace source pc unset u hu other)
      | recording u other set => exact absurd set (by simp [unset])
      | recorded other set => exact absurd set (by simp [unset])

omit [DecidableEq Tid] in
/-- There is one committed thread. -/
theorem OnlyCommitted.eq {s : TriggerThreads Tid} {t u : Tid} (h : s.OnlyCommitted u)
    (ht : (s.pc t).committed = true) : t = u := by
  by_contra hne
  rw [h t hne] at ht
  cases ht

/-- The others stay uncommitted when the winner moves. -/
theorem OnlyCommitted.update {s : TriggerThreads Tid} {t : Tid} (h : s.OnlyCommitted t)
    (sh : TriggerShared) (p : TriggerPc) : OnlyCommitted ⟨sh, Function.update s.pc t p⟩ t :=
  fun u hu => (congrArg _ (Function.update_of_ne hu p s.pc)).trans (h u hu)

/-- The winner moves on through its record. -/
theorem recording_step {old : Nat} {s : TriggerThreads Tid} {t : Tid} {source : KillSource}
    {sh : TriggerShared} {p : TriggerPc} {c : TriggerChoice}
    (set : s.shared.switch.killFlag = true) (winners : s.shared.winners = [])
    (pc : (s.pc t).Recording old source s.shared.switch) (others : s.OnlyCommitted t)
    (hprog : triggerThread t s.shared (s.pc t) c = some (sh, p)) :
    Phase old ⟨sh, Function.update s.pc t p⟩ := by
  -- as long as the call does not return, the next operation finds its record so far
  have still : sh.switch.killFlag = true → sh.winners = [] → p.Recording old source sh.switch →
      Phase old ⟨sh, Function.update s.pc t p⟩ := fun set' winners' pc' =>
    .recording t source set' winners' (by simpa using pc') (others.update sh p)
  cases hp : s.pc t with
  | idle | loadFlag | storeFlag =>
      rw [hp] at pc
      exact pc.elim
  | storeState | storeSource | storeLastKill =>
      rw [hp] at pc hprog
      obtain ⟨rfl, record⟩ := pc
      cases c with
      | goOn => cases hprog; exact still set winners (by simp [TriggerPc.Recording, record])
      | _ => cases hprog
  | readClock =>
      rw [hp] at pc hprog
      cases c with
      | clock nowNs => cases hprog; exact still set winners pc
      | _ => cases hprog
  | addCount =>
      rw [hp] at pc hprog
      obtain ⟨rfl, count, triggerSource⟩ := pc
      cases c with
      | goOn =>
          cases hprog
          exact still set winners ⟨rfl, by rw [count], triggerSource⟩
      | _ => cases hprog
  | storeCooldownStart =>
      rw [hp] at pc hprog
      obtain ⟨rfl, count, triggerSource⟩ := pc
      cases c with
      | goOn =>
          cases hprog
          refine .recorded _ set ?_ count triggerSource ?_
          · exact (List.filter_append _ _).trans (congrArg (· ++ _) winners)
          · exact forall_pc_update (Q := fun _ (q : TriggerPc) => q.committed = false) rfl others
      | _ => cases hprog

/-- The committed call sets the flag, then records. -/
theorem Phase.committed_step {old : Nat} {s : TriggerThreads Tid} (phase : s.Phase old)
    {t : Tid} {sh : TriggerShared} {p : TriggerPc} {c : TriggerChoice}
    (hpc : (s.pc t).committed = true)
    (hprog : triggerThread t s.shared (s.pc t) c = some (sh, p)) :
    Phase old ⟨sh, Function.update s.pc t p⟩ := by
  cases phase with
  | untouched _ _ _ pcs | recorded _ _ _ _ _ pcs => exact absurd hpc (by simp [pcs t])
  | claimed u source unset returned count pc others =>
      obtain rfl := others.eq hpc
      rw [pc] at hprog
      cases c with
      | goOn =>
          cases hprog
          refine .recording t source rfl ?_ ?_ (others.update _ _)
          · simp [TriggerShared.winners, returned]
          · simpa [TriggerPc.Recording] using count
      | _ => cases hprog
  | recording u source set winners pc others =>
      obtain rfl := others.eq hpc
      exact recording_step set winners pc others hprog

omit [DecidableEq Tid] in
/-- No operation disarms the switch. -/
theorem isArmed_of_triggerThread {t : Tid} {sh sh' : TriggerShared} {p p' : TriggerPc}
    {c : TriggerChoice} (h : triggerThread t sh p c = some (sh', p')) :
    sh'.switch.isArmed = sh.switch.isArmed := by
  cases hp : p.committed with
  | true => exact (committed_effect hp h).1
  | false =>
      cases uncommitted_effect hp h with
      | silent shared | commit _ shared => rw [shared]
      | refused _ shared => rw [shared]; rfl

/-- **One operation** without a race keeps the phases. -/
theorem inv_step {old : Nat} {s s' : TriggerThreads Tid} {a : Tid × TriggerChoice}
    (inv : s.Inv old) (hstep : step triggerThread s a = some s') (hrace : s.Unraced a s') :
    s'.Inv old := by
  obtain ⟨sh, p, hprog, rfl⟩ := step_eq_some.mp hstep
  refine ⟨(isArmed_of_triggerThread hprog).trans inv.armed, ?_⟩
  cases hpc : (s.pc a.1).committed with
  | true => exact inv.phase.committed_step hpc hprog
  | false =>
      exact inv.phase.uncommitted_step hpc inv.armed (uncommitted_effect hpc hprog) hrace

/-! ### A race cannot be undone -/

omit [DecidableEq Tid] in
/-- **Two calls win**: they are committed, or have already returned `true`. -/
inductive Contested (s : TriggerThreads Tid) : Prop where
  | both (t u : Tid) (ne : t ≠ u) (ht : (s.pc t).committed = true)
      (hu : (s.pc u).committed = true)
  | one (t : Tid) (ht : (s.pc t).committed = true) (won : 1 ≤ s.shared.winners.length)
  | neither (won : 2 ≤ s.shared.winners.length)

omit [DecidableEq Tid] in
/-- A contested switch does not come to rest with one winner. -/
theorem Contested.not_oneWinner {old : Nat} {s : TriggerThreads Tid} (h : s.Contested)
    (rest : s.AtRest) : ¬ s.OneWinner old := by
  rintro ⟨source, winners, -, -⟩
  cases h with
  | both t u ne ht => simp [rest t, TriggerPc.committed] at ht
  | one t ht => simp [rest t, TriggerPc.committed] at ht
  | neither won => simp [winners] at won

/-- A race leaves two committed calls. -/
theorem contested_of_race {s s' : TriggerThreads Tid} {a : Tid × TriggerChoice}
    (hstep : step triggerThread s a = some s') (hrace : ¬ s.Unraced a s') : s'.Contested := by
  simp only [Unraced, not_forall, not_not] at hrace
  obtain ⟨source, hpc, unset, u, hu, other, hpcu⟩ := hrace
  obtain ⟨sh, p, hprog, rfl⟩ := step_eq_some.mp hstep
  obtain ⟨t, c⟩ := a
  rw [hpc] at hprog
  cases c with
  | goOn =>
      simp only [triggerThread, unset, Bool.false_eq_true, if_false] at hprog
      cases hprog
      exact .both t u hu.symm (by simp [TriggerPc.committed])
        (by simp [Function.update_of_ne hu, hpcu, TriggerPc.committed])
  | _ => cases hprog

/-- A step loses no winner: the committed calls stay so, except that the one that moves
may turn into a call that returned `true`. -/
theorem winners_step {s s' : TriggerThreads Tid} {a : Tid × TriggerChoice}
    (hstep : step triggerThread s a = some s') :
    (∀ u, u ≠ a.1 → s'.pc u = s.pc u) ∧
      (((s.pc a.1).committed = true → (s'.pc a.1).committed = true) ∧
          s'.shared.winners = s.shared.winners ∨
        s'.shared.winners.length = s.shared.winners.length + 1) := by
  obtain ⟨sh, p, hprog, rfl⟩ := step_eq_some.mp hstep
  refine ⟨fun u hu => Function.update_of_ne hu p s.pc, ?_⟩
  cases hpc : (s.pc a.1).committed with
  | true =>
      obtain ⟨-, ⟨hp, hreturned⟩ | ⟨source, hwinners⟩⟩ := committed_effect hpc hprog
      · exact Or.inl ⟨fun _ => by simpa using hp, congrArg (List.filter _) hreturned⟩
      · exact Or.inr (by simp [hwinners])
  | false =>
      refine Or.inl ⟨nofun, ?_⟩
      cases uncommitted_effect hpc hprog with
      | silent shared | commit _ shared => rw [shared]
      | refused _ shared => simp [shared, TriggerShared.winners, TriggerShared.finish]

/-- **Any operation** after a race leaves as many. -/
theorem contested_step {s s' : TriggerThreads Tid} {a : Tid × TriggerChoice}
    (h : s.Contested) (hstep : step triggerThread s a = some s') : s'.Contested := by
  obtain ⟨hothers, ⟨hself, hwinners⟩ | hwinners⟩ := winners_step hstep
  · have hstays : ∀ u, (s.pc u).committed = true → (s'.pc u).committed = true := by
      intro u hu
      by_cases hua : u = a.1
      · exact hua ▸ hself (hua ▸ hu)
      · rw [hothers u hua]
        exact hu
    cases h with
    | both t u ne ht hu => exact .both t u ne (hstays t ht) (hstays u hu)
    | one t ht won => exact .one t (hstays t ht) (hwinners ▸ won)
    | neither won => exact .neither (hwinners ▸ won)
  · -- the thread that moves has won; whoever else is committed still is
    have hother : ∀ u, u ≠ a.1 → (s.pc u).committed = true → s'.Contested := fun u hua hu =>
      .one u (by rw [hothers u hua]; exact hu) (by omega)
    cases h with
    | both t u ne ht hu =>
        by_cases hta : t = a.1
        · exact hother u (fun hua => ne (hta.trans hua.symm)) hu
        · exact hother t hta ht
    | one t ht won => exact .neither (by omega)
    | neither won => exact .neither (by omega)

/-- **One winner if and only if unraced**, for every run that comes to rest after at
least one call. -/
theorem oneWinner_iff_unraced {k : GlobalKillSwitch} (armed : k.isArmed = true)
    (unset : k.killFlag = false) {run : List (Tid × TriggerChoice)} {s : TriggerThreads Tid}
    (hrun : Transition.run (step triggerThread) (start Tid k) run = some s) (rest : s.AtRest)
    (called : s.shared.returned ≠ []) :
    s.OneWinner k.killCount ↔ AllSteps (step triggerThread) Unraced (start Tid k) run := by
  constructor
  · intro hone
    exact allSteps_of_absorbing (fun _ _ _ hstep hrace => contested_of_race hstep hrace)
      (fun _ _ _ h hstep => contested_step h hstep) hrun fun h => h.not_oneWinner rest hone
  · intro hunraced
    have inv : s.Inv k.killCount :=
      run_of_invariant (fun _ _ _ inv hstep hrace => inv_step inv hstep hrace)
        (inv_start armed unset) hunraced hrun
    exact inv.oneWinner rest called

end TriggerThreads

/-! ## Recording cancellations -/

/-- The switch, the number of `record_cancellation` calls made, and what those that have
returned gave back. -/
structure RecordShared where
  switch : GlobalKillSwitch
  calls : Nat
  returned : List Nat
  deriving Repr, DecidableEq

/-- Where a thread is in `record_cancellation`, by the operation it performs next. -/
inductive RecordPc where
  | idle
  | addCancelled (remaining : Nat)
  | storeCancelled (remaining : Nat)
  deriving Repr, DecidableEq

/-- An idle thread may call; a call goes on. -/
inductive RecordChoice where
  | record
  | goOn
  deriving Repr, DecidableEq

/-- **One atomic operation of `record_cancellation`.** -/
def recordThread {Tid : Type} (_ : Tid) (sh : RecordShared) :
    RecordPc → RecordChoice → Option (RecordShared × RecordPc)
  | .idle, .record =>
      -- `fetch_sub` wraps, the value it returns is decremented without wrapping
      some
        ({ sh with
            switch :=
              { sh.switch with
                ordersPending := MachineInt.u64 ((sh.switch.ordersPending : Int) - 1) }
            calls := sh.calls + 1 },
          .addCancelled (sh.switch.ordersPending - 1))
  | .addCancelled remaining, .goOn =>
      let added : GlobalKillSwitch :=
        { sh.switch with ordersCancelled := (sh.switch.ordersCancelled + 1) % 2 ^ 64 }
      if remaining = 0 then some ({ sh with switch := added }, .storeCancelled remaining)
      else some ({ sh with switch := added, returned := sh.returned ++ [remaining] }, .idle)
  | .storeCancelled remaining, .goOn =>
      some
        ({ sh with
            switch := { sh.switch with state := KillState.cancelled.toU64 }
            returned := sh.returned ++ [remaining] },
          .idle)
  | _, _ => none

/-- Threads and the switch on which they record cancellations. -/
abbrev RecordThreads (Tid : Type) := State Tid RecordPc RecordShared

/-- No call running, none made. -/
def RecordThreads.start (Tid : Type) (k : GlobalKillSwitch) : RecordThreads Tid :=
  ⟨⟨k, 0, []⟩, fun _ => .idle⟩

/-- The call is going to store `Cancelled`. -/
def RecordPc.Completing : RecordPc → Prop
  | .addCancelled remaining => remaining = 0
  | .storeCancelled _ => True
  | .idle => False

namespace RecordThreads

variable {Tid : Type}

/-- All calls have returned. -/
def AtRest (s : RecordThreads Tid) : Prop := ∀ t, s.pc t = .idle

/-- **The count of `n` orders is exact.** -/
structure Exact (n : Nat) (s : RecordThreads Tid) : Prop where
  /-- What is pending is what was not recorded, and never less than nothing. -/
  pending : s.shared.switch.ordersPending = n - s.shared.calls
  /-- The cancellation is complete with the last order. -/
  cancelled : s.shared.switch.getState = .cancelled ↔ n ≤ s.shared.calls

/-- **The invariant**: the pending counter wraps, and the order that brings it to zero is
the one that completes the cancellation. -/
structure Inv (n : Nat) (s : RecordThreads Tid) : Prop where
  /-- The counter goes round at zero. -/
  pending : s.shared.switch.ordersPending = MachineInt.u64 ((n : Int) - s.shared.calls)
  running : s.shared.calls < n →
    s.shared.switch.state ≠ KillState.cancelled.toU64 ∧ ∀ t, ¬ (s.pc t).Completing
  /-- The call that brought it to zero has stored the state, or is about to. -/
  completed : n ≤ s.shared.calls →
    s.shared.switch.state = KillState.cancelled.toU64 ∨ ∃ t, (s.pc t).Completing

theorem inv_start {n : Nat} (pos : 1 ≤ n) (range : n < 2 ^ 64) (k : GlobalKillSwitch) :
    (start Tid (k.beginCancellation n)).Inv n where
  pending := by
    show n = _
    rw [start, Int.natCast_zero, sub_zero, MachineInt.u64_natCast range]
  running := fun _ => ⟨nofun, fun _ => id⟩
  completed := fun hle => absurd pos (by simpa [start] using hle)

variable [DecidableEq Tid]

/-- The invariant stays when only the thread that moves changes, and is completing the
cancellation after as before. -/
theorem Inv.move {n : Nat} {s : RecordThreads Tid} (inv : s.Inv n) {t : Tid} {sh : RecordShared}
    {p : RecordPc} (hpending : sh.switch.ordersPending = s.shared.switch.ordersPending)
    (hstate : sh.switch.state = s.shared.switch.state) (hcalls : sh.calls = s.shared.calls)
    (hpc : p.Completing ↔ (s.pc t).Completing) : Inv n ⟨sh, Function.update s.pc t p⟩ := by
  have same : ∀ u, (Function.update s.pc t p u).Completing ↔ (s.pc u).Completing :=
    forall_pc_update (Q := fun u (q : RecordPc) => q.Completing ↔ (s.pc u).Completing) hpc
      fun _ _ => Iff.rfl
  constructor
  · simpa [hpending, hcalls] using inv.pending
  · simpa [hstate, hcalls, same] using inv.running
  · simpa [hstate, hcalls, same] using inv.completed

/-- A new call takes one order off the counter. -/
theorem Inv.record {n : Nat} {s : RecordThreads Tid} (range : n < 2 ^ 64) (inv : s.Inv n)
    {t : Tid} {c : RecordChoice} {sh : RecordShared} {p : RecordPc} (hpc : s.pc t = .idle)
    (hprog : recordThread t s.shared .idle c = some (sh, p)) :
    Inv n ⟨sh, Function.update s.pc t p⟩ := by
  cases c with
  | goOn => cases hprog
  | record =>
      cases hprog
      have hpending := inv.pending
      constructor
      · show MachineInt.u64 _ = MachineInt.u64 ((n : Int) - (s.shared.calls + 1 : Nat))
        rw [hpending, MachineInt.u64, MachineInt.u64, MachineInt.u64]
        omega
      · intro hlt
        change s.shared.calls + 1 < n at hlt
        obtain ⟨hstate, hnone⟩ := inv.running (by omega)
        refine ⟨hstate, forall_pc_update (Q := fun _ (q : RecordPc) => ¬ q.Completing) ?_
          fun u _ => hnone u⟩
        -- at least two orders were pending
        show s.shared.switch.ordersPending - 1 ≠ 0
        rw [hpending, MachineInt.u64_of_range (by omega) (by omega)]
        omega
      · intro hle
        change n ≤ s.shared.calls + 1 at hle
        by_cases hlast : n = s.shared.calls + 1
        · refine Or.inr ⟨t, ?_⟩
          show (Function.update s.pc t _ t).Completing
          rw [Function.update_self]
          show s.shared.switch.ordersPending - 1 = 0
          rw [hpending, MachineInt.u64_of_range (by omega) (by omega)]
          omega
        · refine (inv.completed (by omega)).imp id ?_
          rintro ⟨u, hu⟩
          have hne : u ≠ t := by
            rintro rfl
            rw [hpc] at hu
            exact hu
          exact ⟨u, by simpa [Function.update_of_ne hne] using hu⟩

theorem inv_step {n : Nat} {s s' : RecordThreads Tid} {a : Tid × RecordChoice} (range : n < 2 ^ 64)
    (inv : s.Inv n) (hstep : step recordThread s a = some s') : s'.Inv n := by
  obtain ⟨sh, p, hprog, rfl⟩ := step_eq_some.mp hstep
  obtain ⟨t, c⟩ := a
  cases hpc : s.pc t with
  | idle =>
      rw [hpc] at hprog
      exact inv.record range hpc hprog
  | addCancelled remaining =>
      rw [hpc] at hprog
      cases c with
      | record => cases hprog
      | goOn =>
          simp only [recordThread] at hprog
          split at hprog
          · cases hprog
            exact inv.move rfl rfl rfl (iff_of_true trivial (by rw [hpc]; assumption))
          · cases hprog
            exact inv.move rfl rfl rfl (iff_of_false id (by rw [hpc]; assumption))
  | storeCancelled remaining =>
      rw [hpc] at hprog
      cases c with
      | record => cases hprog
      | goOn =>
          cases hprog
          refine ⟨inv.pending, fun hlt => ?_, fun _ => Or.inl rfl⟩
          exact absurd (by rw [hpc]; trivial) ((inv.running hlt).2 t)

omit [DecidableEq Tid] in
/-- Where no call is running, the state is right and the counter has wrapped. -/
theorem Inv.atRest {n : Nat} {s : RecordThreads Tid} (inv : s.Inv n) (rest : s.AtRest) :
    s.shared.switch.ordersPending = MachineInt.u64 ((n : Int) - s.shared.calls) ∧
      (s.shared.switch.getState = .cancelled ↔ n ≤ s.shared.calls) := by
  refine ⟨inv.pending,
    GlobalKillSwitch.getState_eq_cancelled.trans ⟨fun hstate => ?_, fun hle => ?_⟩⟩
  · by_contra hlt
    exact (inv.running (by omega)).1 hstate
  · refine (inv.completed hle).resolve_right ?_
    rintro ⟨t, ht⟩
    rw [rest t] at ht
    exact ht

/-- **The count is exact if and only if** no more cancellations are recorded than orders
were pending, or the counter has wrapped back to zero. -/
theorem exact_iff {n : Nat} (pos : 1 ≤ n) (range : n < 2 ^ 64) (k : GlobalKillSwitch)
    {run : List (Tid × RecordChoice)} {s : RecordThreads Tid}
    (hrun : Transition.run (step recordThread) (start Tid (k.beginCancellation n)) run = some s)
    (rest : s.AtRest) :
    s.Exact n ↔ s.shared.calls ≤ n ∨ 2 ^ 64 ∣ s.shared.calls - n := by
  have inv : s.Inv n :=
    run_of_invariant' (fun _ _ _ inv hstep => inv_step range inv hstep)
      (inv_start pos range k) hrun
  obtain ⟨hpending, hstate⟩ := inv.atRest rest
  have wrapped : MachineInt.u64 ((n : Int) - s.shared.calls) = n - s.shared.calls ↔
      s.shared.calls ≤ n ∨ 2 ^ 64 ∣ s.shared.calls - n := by
    rw [MachineInt.u64]
    omega
  exact ⟨fun h => wrapped.mp (hpending ▸ h.pending),
    fun h => ⟨hpending.trans (wrapped.mpr h), hstate⟩⟩

end RecordThreads

/-! ## The kill switch -/

/-- **The kill switch is exact** for any number of threads and every interleaving:
triggering an armed switch has one winner exactly when no two calls race, and the
cancellation accounting of `n` pending orders is exact exactly when there are no surplus
reports, or as many as make the counter wrap to zero. -/
theorem oneWinner_and_exact_iff (Tid : Type) [DecidableEq Tid] :
    (∀ k : GlobalKillSwitch, k.isArmed = true → k.killFlag = false →
      ∀ (run : List (Tid × TriggerChoice)) (s : TriggerThreads Tid),
        Transition.run (step triggerThread) (TriggerThreads.start Tid k) run = some s →
        s.AtRest → s.shared.returned ≠ [] →
          (s.OneWinner k.killCount ↔
            AllSteps (step triggerThread) TriggerThreads.Unraced (TriggerThreads.start Tid k)
              run)) ∧
    (∀ (k : GlobalKillSwitch) (n : Nat), 1 ≤ n → n < 2 ^ 64 →
      ∀ (run : List (Tid × RecordChoice)) (s : RecordThreads Tid),
        Transition.run (step recordThread) (RecordThreads.start Tid (k.beginCancellation n)) run =
          some s →
        s.AtRest →
          (s.Exact n ↔ s.shared.calls ≤ n ∨ 2 ^ 64 ∣ s.shared.calls - n)) :=
  ⟨fun _ armed unset _ _ hrun rest called =>
      TriggerThreads.oneWinner_iff_unraced armed unset hrun rest called,
    fun k _ pos range _ _ hrun rest => RecordThreads.exact_iff pos range k hrun rest⟩

/-- One operation after the other of a call that wins at the given time. -/
def winningCall {Tid : Type} (t : Tid) (source : KillSource) (nowNs : Nat) :
    List (Tid × TriggerChoice) :=
  [(t, .trigger source), (t, .goOn), (t, .goOn), (t, .goOn), (t, .goOn), (t, .clock nowNs),
    (t, .goOn), (t, .goOn), (t, .goOn)]

/-- One thread that calls twice, and one report for one pending order. -/
theorem oneWinner_and_exact_sequential :
    (∃ s : TriggerThreads Unit,
      Transition.run (step triggerThread) (TriggerThreads.start Unit (.new 1000))
        (winningCall () .manualUI 5 ++ [((), .trigger .riskThreshold), ((), .goOn)]) = some s ∧
        s.OneWinner 0) ∧
    (∃ s : RecordThreads Unit,
      Transition.run (step recordThread)
        (RecordThreads.start Unit ((GlobalKillSwitch.new 1000).beginCancellation 1))
        [((), .record), ((), .goOn), ((), .goOn)] = some s ∧ s.Exact 1) := by
  constructor
  · refine ⟨_, rfl, ((oneWinner_and_exact_iff Unit).1 (.new 1000) rfl rfl
      (winningCall () .manualUI 5 ++ [((), .trigger .riskThreshold), ((), .goOn)]) _ rfl
      (fun _ => rfl) (List.cons_ne_nil _ _)).mpr ?_⟩
    -- there is no other thread
    exact allSteps_of_forall (fun _ _ _ _ _ _ _ u hu => absurd rfl hu) _ _
  · exact ⟨_, rfl, ((oneWinner_and_exact_iff Unit).2 (.new 1000) 1 le_rfl (by norm_num)
      [((), .record), ((), .goOn), ((), .goOn)] _ rfl fun _ => rfl).mpr (Or.inl le_rfl)⟩

/-- **Two winners, and a wrapped count**: two calls that load the flag before either
stores it both return `true`; and the second report for a single pending order wraps the
counter. -/
theorem not_forall_oneWinner_and_not_forall_exact :
    (¬ ∀ (run : List (Bool × TriggerChoice)) (s : TriggerThreads Bool),
      Transition.run (step triggerThread) (TriggerThreads.start Bool (.new 1000)) run = some s →
        s.AtRest → s.shared.returned ≠ [] → s.OneWinner 0) ∧
    (¬ ∀ (run : List (Bool × RecordChoice)) (s : RecordThreads Bool),
      Transition.run (step recordThread)
        (RecordThreads.start Bool ((GlobalKillSwitch.new 1000).beginCancellation 1)) run = some s →
        s.AtRest → s.Exact 1) := by
  constructor
  · intro h
    obtain ⟨source, winners, -, -⟩ := h
      ([(false, .trigger .manualUI), (false, .goOn), (true, .trigger .riskThreshold),
        (true, .goOn)] ++
        (winningCall false .manualUI 5).drop 2 ++ (winningCall true .riskThreshold 6).drop 2)
      _ rfl (by intro t; cases t <;> rfl) nofun
    have two : 2 = 1 := congrArg List.length winners
    cases two
  · intro h
    have hexact := h [(false, .record), (false, .goOn), (false, .goOn), (false, .record),
      (false, .goOn), (false, .goOn)] _ rfl (by intro t; cases t <;> rfl)
    have wrapped : 2 ^ 64 - 1 = 0 := hexact.pending
    cases wrapped

end StopTrading.Safety
