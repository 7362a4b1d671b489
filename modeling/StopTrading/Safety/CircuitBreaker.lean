import StopTrading.Library.MachineInt
import StopTrading.Library.Transition

/-!
# The drawdown circuit breaker

`CircuitBreaker` follows the peak of the equity and opens when the drawdown from it
reaches a limit in basis points.  Amounts are `i64` and counters `u64`; a call that reads
the clock takes its readings as arguments.

The arithmetic is right for every peak that is an equity (`updateEquity_of_seeded`).  But a
new breaker holds the largest `i64` as its peak, no equity is above it, and as long as the
peak is that value the drawdown is not looked at.  So no update of any run trips the
breaker (`allSteps_updateEquity_silent`), and it does what it is for exactly in the runs
in which it is never needed (`trips_iff_mild`).

### What is load-bearing

`updateEquity_of_unseeded` is the whole of the defect: while the peak is the sentinel, an update
stores the equity and does nothing else.  That the peak stays the sentinel is an invariant of all
calls, `reset` included (`peakEquity_apply`), and only with it does a fact about one update
become one about every run.

`updateEquity_of_seeded` is stated although no breaker ever comes to such a state.  It shows that
the arithmetic is not what is wrong, so that the missing seed is the only reason.

### Design decisions

Two readings of the clock are taken when a breaker trips, one for the event and one for
everything else. They are separate arguments, because nothing makes them equal.
-/

namespace StopTrading.Safety

open Transition MachineInt

/-- `BreakerType`. -/
inductive BreakerType where
  | drawdown
  | apiErrors
  | volatility
  | latencySpike
  | orderRejection
  | fillRate
  | positionDrift
  | marginWarning
  | networkPartition
  | exchangeMaintenance
  deriving Repr, DecidableEq

/-- `BreakerState`. -/
inductive BreakerState where
  | closed
  | open
  | halfOpen
  | cooldown
  deriving Repr, DecidableEq

/-- `BreakerConfig`. -/
structure BreakerConfig where
  maxDrawdownBps : Nat
  maxApiErrors : Nat
  apiErrorWindowS : Nat
  rejectionThresholdPct : Nat
  cooldownMs : Nat
  autoRecovery : Bool
  deriving Repr, DecidableEq

/-- `BreakerConfig::default`. -/
def BreakerConfig.default : BreakerConfig where
  maxDrawdownBps := 500
  maxApiErrors := 10
  apiErrorWindowS := 60
  rejectionThresholdPct := 50
  cooldownMs := 60000
  autoRecovery := false

/-- `BreakerEvent`. -/
structure BreakerEvent where
  breakerType : BreakerType
  timestampNs : Nat
  triggerValue : Nat
  thresholdValue : Nat
  deriving Repr, DecidableEq

/-- The readings of the clock in a call: the first is the timestamp of an event, the
second the one everything else uses. -/
structure Clock where
  eventNs : Nat
  nowNs : Nat
  deriving Repr, DecidableEq

/-- `CircuitBreaker`. -/
structure CircuitBreaker where
  config : BreakerConfig
  state : BreakerState
  tripCount : Nat
  lastTripNs : Nat
  cooldownEndNs : Nat
  peakEquity : Int
  currentEquity : Int
  apiErrorCount : Nat
  apiErrorWindowStartNs : Nat
  ordersSubmitted : Nat
  ordersRejected : Nat
  enabled : Bool
  lastEvent : Nat
  deriving Repr, DecidableEq

/-- `i64::MAX`. -/
def maxEquity : Int := 2 ^ 63 - 1

namespace CircuitBreaker

/-- `new`. -/
def new (config : BreakerConfig) (nowNs : Nat) : CircuitBreaker where
  config := config
  state := .closed
  tripCount := 0
  lastTripNs := 0
  cooldownEndNs := 0
  peakEquity := maxEquity
  currentEquity := 0
  apiErrorCount := 0
  apiErrorWindowStartNs := nowNs
  ordersSubmitted := 0
  ordersRejected := 0
  enabled := true
  lastEvent := 0

/-- `trip`. -/
def trip (b : CircuitBreaker) (breakerType : BreakerType) (triggerValue thresholdValue : Nat)
    (clock : Clock) : CircuitBreaker × BreakerEvent :=
  ({ b with
      state := .open
      tripCount := (b.tripCount + 1) % 2 ^ 64
      lastTripNs := clock.nowNs
      cooldownEndNs := (clock.nowNs + b.config.cooldownMs * 1000000) % 2 ^ 64
      lastEvent := clock.nowNs },
    ⟨breakerType, clock.eventNs, triggerValue, thresholdValue⟩)

/-- The first half of `update_equity`: the equity and the peak. -/
def observe (b : CircuitBreaker) (equity : Int) : CircuitBreaker :=
  { b with
    currentEquity := equity
    peakEquity := if equity > b.peakEquity then equity else b.peakEquity }

/-- `update_equity`. -/
def updateEquity (b : CircuitBreaker) (equity : Int) (clock : Clock) :
    CircuitBreaker × Option BreakerEvent :=
  if b.enabled = false then (b, none)
  else
    let b := b.observe equity
    if b.peakEquity > 0 ∧ b.peakEquity ≠ maxEquity then
      let drawdownBps := u64 (u64 (i64 (b.peakEquity - equity)) * 10000) / u64 b.peakEquity
      if drawdownBps ≥ b.config.maxDrawdownBps then
        ((b.trip .drawdown drawdownBps b.config.maxDrawdownBps clock).1,
          some (b.trip .drawdown drawdownBps b.config.maxDrawdownBps clock).2)
      else (b, none)
    else (b, none)

/-- `record_api_error`.  `windowNs` is the reading that decides about the window, before
the ones of the trip. -/
def recordApiError (b : CircuitBreaker) (windowNs : Nat) (clock : Clock) :
    CircuitBreaker × Option BreakerEvent :=
  if b.enabled = false then (b, none)
  else if
      windowNs - b.apiErrorWindowStartNs > b.config.apiErrorWindowS * 1000000000 % 2 ^ 64 then
    ({ b with apiErrorWindowStartNs := windowNs, apiErrorCount := 1 }, none)
  else
    let count := (b.apiErrorCount + 1) % 2 ^ 64
    let b := { b with apiErrorCount := count }
    if count ≥ b.config.maxApiErrors then
      ((b.trip .apiErrors count b.config.maxApiErrors clock).1,
        some (b.trip .apiErrors count b.config.maxApiErrors clock).2)
    else (b, none)

/-- `record_order_submission`. -/
def recordOrderSubmission (b : CircuitBreaker) : CircuitBreaker :=
  { b with ordersSubmitted := (b.ordersSubmitted + 1) % 2 ^ 64 }

/-- `record_order_rejection`.  The percentage is narrowed to eight bits. -/
def recordOrderRejection (b : CircuitBreaker) (clock : Clock) :
    CircuitBreaker × Option BreakerEvent :=
  if b.enabled = false then (b, none)
  else
    let rejected := (b.ordersRejected + 1) % 2 ^ 64
    let b := { b with ordersRejected := rejected }
    if b.ordersSubmitted ≥ 10 then
      let rejectionPct := (rejected * 100 % 2 ^ 64 / b.ordersSubmitted) % 2 ^ 8
      if rejectionPct ≥ b.config.rejectionThresholdPct then
        ((b.trip .orderRejection rejectionPct b.config.rejectionThresholdPct clock).1,
          some (b.trip .orderRejection rejectionPct b.config.rejectionThresholdPct clock).2)
      else (b, none)
    else (b, none)

/-- `is_cooldown_expired`. -/
def isCooldownExpired (b : CircuitBreaker) (nowNs : Nat) : Bool :=
  b.cooldownEndNs = 0 ∨ nowNs ≥ b.cooldownEndNs

/-- `is_trading_allowed`, which may move an open breaker on. -/
def isTradingAllowed (b : CircuitBreaker) (nowNs : Nat) : CircuitBreaker × Bool :=
  if b.enabled = false then (b, false)
  else
    match b.state with
    | .closed | .halfOpen => (b, true)
    | .open =>
        if b.isCooldownExpired nowNs = true ∧ b.config.autoRecovery = true then
          ({ b with state := .halfOpen }, true)
        else (b, false)
    | .cooldown => (b, false)

/-- `reset`. -/
def reset (b : CircuitBreaker) (nowNs : Nat) : CircuitBreaker :=
  { b with
    state := .closed
    apiErrorCount := 0
    ordersSubmitted := 0
    ordersRejected := 0
    apiErrorWindowStartNs := nowNs }

/-- `disable`. -/
def disable (b : CircuitBreaker) : CircuitBreaker := { b with enabled := false }

/-- `enable`. -/
def enable (b : CircuitBreaker) : CircuitBreaker := { b with enabled := true }

/-- A call on a breaker. -/
inductive Call where
  | updateEquity (equity : Int) (clock : Clock)
  | recordApiError (windowNs : Nat) (clock : Clock)
  | recordOrderSubmission
  | recordOrderRejection (clock : Clock)
  | isTradingAllowed (nowNs : Nat)
  | reset (nowNs : Nat)
  | disable
  | enable
  deriving Repr, DecidableEq

/-- What a call leaves behind. -/
def apply (b : CircuitBreaker) : Call → CircuitBreaker
  | .updateEquity equity clock => (b.updateEquity equity clock).1
  | .recordApiError windowNs clock => (b.recordApiError windowNs clock).1
  | .recordOrderSubmission => b.recordOrderSubmission
  | .recordOrderRejection clock => (b.recordOrderRejection clock).1
  | .isTradingAllowed nowNs => (b.isTradingAllowed nowNs).1
  | .reset nowNs => b.reset nowNs
  | .disable => b.disable
  | .enable => b.enable

/-- Every call is possible. -/
def step (b : CircuitBreaker) (c : Call) : Option CircuitBreaker := some (b.apply c)

/-! ## The drawdown of an equity -/

/-- The drawdown from a peak in basis points, rounded down. -/
def drawdownBps (peak equity : Int) : Int := (peak - equity) * 10000 / peak

/-- **The arithmetic of `update_equity`** for a peak that is an equity. -/
theorem drawdownBps_eq {peak equity : Int} (hpos : 0 < equity) (hle : equity ≤ peak)
    (hbound : peak < 2 ^ 63 / 10000) :
    ((u64 (u64 (i64 (peak - equity)) * 10000) / u64 peak : Nat) : Int) =
      drawdownBps peak equity := by
  have hdiff : u64 (i64 (peak - equity)) = (peak - equity).toNat := by
    rw [u64_i64, u64_of_range (by omega) (by omega)]
  have hscaled : u64 ((peak - equity).toNat * 10000 : Nat) = (peak - equity).toNat * 10000 :=
    u64_natCast (by omega)
  have hpeak : u64 peak = peak.toNat := u64_of_range (by omega) (by omega)
  rw [hdiff]
  push_cast at hscaled ⊢
  rw [hscaled, hpeak, drawdownBps, Nat.cast_mul, Int.toNat_of_nonneg (by omega),
    Int.toNat_of_nonneg (by omega)]
  rfl

/-- **An update from a peak that is an equity** follows the peak, and trips exactly at a
drawdown that reaches the limit. -/
theorem updateEquity_of_seeded {b : CircuitBreaker} {equity : Int} (clock : Clock)
    (henabled : b.enabled = true) (hpos : 0 < equity) (hbound : equity < 2 ^ 63 / 10000)
    (hpeak : 0 < b.peakEquity) (hseeded : b.peakEquity < 2 ^ 63 / 10000) :
    (b.updateEquity equity clock).1.peakEquity = max b.peakEquity equity ∧
      ((b.updateEquity equity clock).2.isSome ↔
        b.config.maxDrawdownBps ≤ drawdownBps (max b.peakEquity equity) equity) := by
  have hmax : (b.observe equity).peakEquity = max b.peakEquity equity := by
    rw [observe, max_def_lt]
  have hbelow : max b.peakEquity equity < 2 ^ 63 / 10000 := max_lt hseeded hbound
  have hlook : max b.peakEquity equity > 0 ∧ max b.peakEquity equity ≠ maxEquity :=
    ⟨lt_max_of_lt_left hpeak, fun h => by rw [h] at hbelow; exact absurd hbelow (by decide)⟩
  have hdrawdown := drawdownBps_eq hpos (le_max_right b.peakEquity equity) hbelow
  unfold updateEquity
  rw [if_neg (by simp [henabled])]
  simp only [hmax, if_pos hlook, ← hdrawdown, Nat.cast_le]
  split
  · rename_i htrip
    exact ⟨hmax, iff_of_true rfl htrip⟩
  · rename_i hmild
    exact ⟨hmax, iff_of_false Bool.false_ne_true hmild⟩

/-! ## A new breaker -/

/-- **An update while the peak is the sentinel** stores the equity and nothing else. -/
theorem updateEquity_of_unseeded {b : CircuitBreaker} {equity : Int} (clock : Clock)
    (hpeak : b.peakEquity = maxEquity) (hrange : equity ≤ maxEquity) :
    (b.updateEquity equity clock).2 = none ∧
      (b.updateEquity equity clock).1.peakEquity = maxEquity ∧
      (b.updateEquity equity clock).1.state = b.state := by
  have hkeep : (b.observe equity).peakEquity = maxEquity := by
    rw [observe, hpeak]
    exact if_neg (not_lt.mpr hrange)
  unfold updateEquity
  split
  · exact ⟨rfl, hpeak, rfl⟩
  · dsimp only
    rw [if_neg (fun h => h.2 hkeep)]
    exact ⟨rfl, hkeep, rfl⟩

/-- Errors and rejections -/
theorem peakEquity_recordApiError (b : CircuitBreaker) (windowNs : Nat) (clock : Clock) :
    (b.recordApiError windowNs clock).1.peakEquity = b.peakEquity := by
  unfold recordApiError
  dsimp only
  split_ifs <;> rfl

/-- have nothing to do with the peak, -/
theorem peakEquity_recordOrderRejection (b : CircuitBreaker) (clock : Clock) :
    (b.recordOrderRejection clock).1.peakEquity = b.peakEquity := by
  unfold recordOrderRejection
  dsimp only
  split_ifs <;> rfl

/-- and neither has the question. -/
theorem peakEquity_isTradingAllowed (b : CircuitBreaker) (nowNs : Nat) :
    (b.isTradingAllowed nowNs).1.peakEquity = b.peakEquity := by
  unfold isTradingAllowed
  split
  · rfl
  · cases b.state <;> dsimp only
    split_ifs <;> rfl

/-- **The sentinel stays**: no call replaces it by an equity. -/
theorem peakEquity_apply {b : CircuitBreaker} (hpeak : b.peakEquity = maxEquity) (c : Call)
    (hrange : ∀ equity clock, c = .updateEquity equity clock → equity ≤ maxEquity) :
    (b.apply c).peakEquity = maxEquity := by
  cases c with
  | updateEquity equity clock =>
      exact (updateEquity_of_unseeded clock hpeak (hrange equity clock rfl)).2.1
  | recordApiError windowNs clock =>
      exact (peakEquity_recordApiError b windowNs clock).trans hpeak
  | recordOrderRejection clock => exact (peakEquity_recordOrderRejection b clock).trans hpeak
  | isTradingAllowed nowNs => exact (peakEquity_isTradingAllowed b nowNs).trans hpeak
  | recordOrderSubmission | reset | disable | enable => exact hpeak

/-- The peak is still the sentinel. -/
def Unseeded (b : CircuitBreaker) : Prop := b.peakEquity = maxEquity

/-- **No update of any run trips a breaker**, whatever other calls come between. -/
theorem allSteps_updateEquity_silent (config : BreakerConfig) (nowNs : Nat) (calls : List Call)
    (hrange : ∀ c ∈ calls, ∀ equity clock, c = .updateEquity equity clock → equity ≤ maxEquity) :
    AllSteps step
      (fun b c _ => ∀ equity clock, c = .updateEquity equity clock →
        (b.updateEquity equity clock).2 = none)
      (new config nowNs) calls := by
  refine AllSteps.of_invariant
    (G := fun _ c _ => ∀ equity clock, c = .updateEquity equity clock → equity ≤ maxEquity)
    (fun b c b' (hpeak : b.Unseeded) hstep hguard => ?_)
    calls _ (rfl : Unseeded (new config nowNs)) (allSteps_of_forall_mem calls _ hrange)
  cases hstep
  refine ⟨peakEquity_apply hpeak c hguard, ?_⟩
  rintro equity clock rfl
  exact (updateEquity_of_unseeded clock hpeak (hguard equity clock rfl)).1

end CircuitBreaker

/-! ## Runs of equities -/

/-- One call of `update_equity`. -/
structure EquityUpdate where
  equity : Int
  clock : Clock
  deriving Repr, DecidableEq

/-- A breaker, and the largest equity it has been given. -/
structure EquityRun where
  breaker : CircuitBreaker
  peak : Int
  deriving Repr, DecidableEq

namespace EquityRun

open CircuitBreaker

/-- A new breaker. -/
def init (config : BreakerConfig) (nowNs : Nat) : EquityRun := ⟨.new config nowNs, 0⟩

/-- One update. -/
def step (r : EquityRun) (u : EquityUpdate) : Option EquityRun :=
  some ⟨(r.breaker.updateEquity u.equity u.clock).1, max r.peak u.equity⟩

/-- The drawdown of an update from the peak so far, itself included. -/
def drawdownAt (r : EquityRun) (u : EquityUpdate) : Int :=
  drawdownBps (max r.peak u.equity) u.equity

/-- **A drawdown that reaches the limit opens the breaker**, with an event. -/
def Trips (config : BreakerConfig) (r : EquityRun) (u : EquityUpdate) (r' : EquityRun) : Prop :=
  config.maxDrawdownBps ≤ r.drawdownAt u →
    (r.breaker.updateEquity u.equity u.clock).2.isSome = true ∧ r'.breaker.state = .open

/-- **The drawdown stays below the limit.** -/
def Mild (config : BreakerConfig) (r : EquityRun) (u : EquityUpdate) (_ : EquityRun) : Prop :=
  r.drawdownAt u < config.maxDrawdownBps

instance (config : BreakerConfig) (r : EquityRun) (u : EquityUpdate) (r' : EquityRun) :
    Decidable (Mild config r u r') :=
  inferInstanceAs (Decidable (_ < _))

/-- The peak of the breaker is still the sentinel. -/
def Unseeded (r : EquityRun) : Prop := r.breaker.Unseeded

/-- **When the breaker does what it is for.**  For every configuration and every sequence
of positive equities: just when the drawdown never reaches the limit. -/
theorem trips_iff_mild (config : BreakerConfig) (nowNs : Nat) (updates : List EquityUpdate)
    (hequities : ∀ u ∈ updates, 0 < u.equity ∧ u.equity * 10000 < 2 ^ 63) :
    AllSteps step (Mild config) (init config nowNs) updates ↔
      AllSteps step (Trips config) (init config nowNs) updates := by
  refine allSteps_iff_of_invariant (V := fun _ u _ => 0 < u.equity ∧ u.equity * 10000 < 2 ^ 63)
    (fun r u r' (hpeak : Unseeded r) hstep hequity hmild => ?_)
    (fun r u r' (hpeak : Unseeded r) hstep hequity htrips => ?_)
    updates _ (rfl : Unseeded (init config nowNs)) (allSteps_of_forall_mem updates _ hequities)
  · cases hstep
    have hrange : u.equity ≤ maxEquity := by
      unfold maxEquity
      omega
    exact ⟨(updateEquity_of_unseeded u.clock hpeak hrange).2.1,
      fun hreached => absurd hmild (not_lt.mpr hreached)⟩
  · have hrange : u.equity ≤ maxEquity := by
      unfold maxEquity
      omega
    have hsilent := (updateEquity_of_unseeded u.clock hpeak hrange).1
    by_contra hreached
    have htripped := (htrips (not_lt.mp hreached)).1
    rw [hsilent] at htripped
    exact Bool.false_ne_true htripped

/-- The theorem on a drawdown of 4 % under a limit of 5 %. -/
theorem trips_fourPercent :
    AllSteps step (Trips .default) (init .default 0)
      [⟨1000000, ⟨1, 1⟩⟩, ⟨960000, ⟨2, 2⟩⟩] :=
  (trips_iff_mild .default 0 _ (by decide)).mp (by decide)

/-- **A drawdown of 5 % goes unnoticed** under a limit of 5 %. -/
theorem not_forall_trips :
    ¬ ∀ (config : BreakerConfig) (nowNs : Nat) (updates : List EquityUpdate),
      (∀ u ∈ updates, 0 < u.equity ∧ u.equity * 10000 < 2 ^ 63) →
      AllSteps step (Trips config) (init config nowNs) updates := by
  intro h
  obtain ⟨-, htrips, -⟩ := h .default 0 [⟨1000000, ⟨1, 1⟩⟩, ⟨950000, ⟨2, 2⟩⟩] (by decide)
  have hopened := (htrips (by decide)).2
  revert hopened
  decide

end EquityRun

end StopTrading.Safety
