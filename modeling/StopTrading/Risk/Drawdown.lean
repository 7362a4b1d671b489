import StopTrading.Library.Transition
import Mathlib.Data.Rat.Defs
import Mathlib.Algebra.Order.Field.Rat
import Mathlib.Tactic.Linarith
import Mathlib.Tactic.NormNum

/-!
# The drawdown tracker and its circuit breaker

`DrawdownTracker` follows the peak of a portfolio value and, at every update,
looks the drawdown up in a list of tiers that become more severe along the list.
Values are exact rationals; a call that reads the clock takes the reading as an
argument.

What the breaker is for is `Escalates`: the active tier is the most severe one
the drawdown reaches, and once the critical drawdown has been reached trading is
refused from then on.  The loop over the tiers stops at the first tier that
applies, and since the mildest comes first, that is always the mildest
(`firstTier_defaultTiers`).  So no tier but the first is ever active, no halt is
ever set, and the breaker escalates in exactly the runs in which it never has to:
those in which every value stays above nine tenths of the peak
(`escalates_iff_nearPeak`).  The readings of the clock do not matter, because
they are only compared with the end of a halt.

### What is load-bearing

The invariant `Inv` says that no halt was ever set.  Until the drawdown is critical it is kept,
because no update selects a tier beyond the first, which has none.  That in turn needs the
thresholds to decrease along the list (`threshold_le`): the loop breaks at the first tier whose
threshold is reached, and a drawdown that reaches any of them has reached the first.
`Inv.update_eq` draws this together; what follows speaks of `statusAt`, a function of the
drawdown, and no longer of the loop.

### Design decisions

`DrawdownRun` carries one bit beside the tracker, whether the critical drawdown was reached.  The
tracker has a maximum drawdown of its own, but the promise should not be read off the state that
it is about.
-/

namespace StopTrading.Risk

open Transition

/-- `CircuitBreakerTier`. -/
structure CircuitBreakerTier where
  threshold : ℚ
  sizeReduction : ℚ
  haltDurationMs : Nat
  requiresManualReset : Bool
  deriving Repr, DecidableEq

/-- `default_tiers::TIER_1`. -/
def tier1 : CircuitBreakerTier := ⟨-1 / 20, 1 / 4, 0, false⟩

/-- `default_tiers::TIER_2`. -/
def tier2 : CircuitBreakerTier := ⟨-1 / 10, 1 / 2, 60000, false⟩

/-- `default_tiers::TIER_3`. -/
def tier3 : CircuitBreakerTier := ⟨-3 / 20, 3 / 4, 300000, false⟩

/-- `default_tiers::TIER_4`. -/
def tier4 : CircuitBreakerTier := ⟨-1 / 5, 1, 3600000, true⟩

/-- `default_tiers::ALL`. -/
def defaultTiers : List CircuitBreakerTier := [tier1, tier2, tier3, tier4]

/-- `CircuitBreakerStatus`. -/
structure CircuitBreakerStatus where
  isActive : Bool
  activeTier : Nat
  sizeMultiplier : ℚ
  haltEndNs : Option Nat
  requiresManualReset : Bool
  deriving Repr, DecidableEq

/-- `CircuitBreakerStatus::inactive`. -/
def CircuitBreakerStatus.inactive : CircuitBreakerStatus := ⟨false, 0, 1, none, false⟩

/-- `DrawdownState`. -/
structure DrawdownState where
  currentDrawdown : ℚ
  maxDrawdown : ℚ
  peakValue : ℚ
  currentValue : ℚ
  timeSincePeak : Nat
  isDrawdown : Bool
  deriving Repr, DecidableEq

/-- `DrawdownTracker`. -/
structure DrawdownTracker where
  peakValue : ℚ
  currentValue : ℚ
  maxDrawdown : ℚ
  timeSincePeak : Nat
  tiers : List CircuitBreakerTier
  breakerStatus : CircuitBreakerStatus
  haltEndNs : Nat
  manuallyOverridden : Bool
  maxAllowedDrawdown : ℚ
  deriving Repr, DecidableEq

/-- The loop over the tiers, from position `i` on: it breaks at the first tier that
applies. -/
def firstTier (drawdown : ℚ) : Nat → List CircuitBreakerTier → Option (Nat × CircuitBreakerTier)
  | _, [] => none
  | i, tier :: tiers =>
      if drawdown ≤ tier.threshold then some (i + 1, tier) else firstTier drawdown (i + 1) tiers

namespace DrawdownTracker

/-- `DrawdownTracker::new`. -/
def new (initialValue maxAllowedDrawdown : ℚ) : DrawdownTracker where
  peakValue := initialValue
  currentValue := initialValue
  maxDrawdown := 0
  timeSincePeak := 0
  tiers := defaultTiers
  breakerStatus := .inactive
  haltEndNs := 0
  manuallyOverridden := false
  maxAllowedDrawdown := maxAllowedDrawdown

/-- `current_drawdown`. -/
def currentDrawdown (t : DrawdownTracker) : ℚ := (t.currentValue - t.peakValue) / t.peakValue

/-- The end of the halt after a tier has been found: set if the tier has one and
none is pending. -/
def haltEndAfter (haltEndNs now : Nat) (tier : CircuitBreakerTier) : Nat :=
  if tier.haltDurationMs > 0 ∧ haltEndNs = 0 then
    (now + tier.haltDurationMs * 1000000) % 2 ^ 64
  else haltEndNs

/-- The part of `update_circuit_breaker` that follows the check of an expired
halt. -/
def selectTier (t : DrawdownTracker) (drawdown : ℚ) (now : Nat) : DrawdownTracker :=
  match firstTier drawdown 0 t.tiers with
  | none =>
      { t with
        breakerStatus :=
          { isActive := false
            activeTier := 0
            sizeMultiplier := 1
            haltEndNs := if t.haltEndNs > now then some t.haltEndNs else none
            requiresManualReset := false } }
  | some (activeTier, tier) =>
      let haltEndNs := haltEndAfter t.haltEndNs now tier
      { t with
        haltEndNs := haltEndNs
        breakerStatus :=
          { isActive := activeTier > 0
            activeTier := activeTier
            sizeMultiplier := 1 - tier.sizeReduction
            haltEndNs := if haltEndNs > now then some haltEndNs else none
            requiresManualReset := tier.requiresManualReset } }

/-- `update_circuit_breaker`. -/
def updateCircuitBreaker (t : DrawdownTracker) (drawdown : ℚ) (now : Nat) : DrawdownTracker :=
  if t.haltEndNs > 0 ∧ now ≥ t.haltEndNs then
    if t.breakerStatus.requiresManualReset = true ∧ t.manuallyOverridden = false then t
    else { t with haltEndNs := 0 }.selectTier drawdown now
  else t.selectTier drawdown now

/-- The first half of `update`: the value, the peak and the maximum drawdown. -/
def observe (t : DrawdownTracker) (currentValue : ℚ) : DrawdownTracker :=
  let peakValue := if currentValue > t.peakValue then currentValue else t.peakValue
  let drawdown := (currentValue - peakValue) / peakValue
  { t with
    currentValue := currentValue
    peakValue := peakValue
    timeSincePeak :=
      if currentValue > t.peakValue then 0 else (t.timeSincePeak + 1) % 2 ^ 64
    maxDrawdown := if drawdown < t.maxDrawdown then drawdown else t.maxDrawdown }

/-- `state`. -/
def state (t : DrawdownTracker) : DrawdownState where
  currentDrawdown := t.currentDrawdown
  maxDrawdown := t.maxDrawdown
  peakValue := t.peakValue
  currentValue := t.currentValue
  timeSincePeak := t.timeSincePeak
  isDrawdown := t.currentDrawdown < 0

/-- `update`. -/
def update (t : DrawdownTracker) (currentValue : ℚ) (now : Nat) : DrawdownState × DrawdownTracker :=
  let observed := t.observe currentValue
  let updated := observed.updateCircuitBreaker observed.currentDrawdown now
  (updated.state, updated)

/-- `can_trade`. -/
def canTrade (t : DrawdownTracker) (now : Nat) : Bool :=
  if t.manuallyOverridden then true
  else if t.haltEndNs > now then false
  else if t.currentDrawdown ≤ t.maxAllowedDrawdown then false
  else !t.breakerStatus.isActive || t.breakerStatus.sizeMultiplier > 0

/-- `size_multiplier`. -/
def sizeMultiplier (t : DrawdownTracker) : ℚ :=
  if t.manuallyOverridden then 1 else t.breakerStatus.sizeMultiplier

end DrawdownTracker

/-! ## What the loop finds -/

/-- The thresholds of the default tiers decrease. -/
theorem threshold_le {drawdown : ℚ} {tier : CircuitBreakerTier} (hmem : tier ∈ defaultTiers)
    (h : drawdown ≤ tier.threshold) : drawdown ≤ -1 / 20 := by
  simp only [defaultTiers, List.mem_cons, List.not_mem_nil, or_false] at hmem
  rcases hmem with rfl | rfl | rfl | rfl
  · exact h
  · exact h.trans (by norm_num [tier2])
  · exact h.trans (by norm_num [tier3])
  · exact h.trans (by norm_num [tier4])

/-- **The loop stops at the mildest tier**, if it stops at all. -/
theorem firstTier_defaultTiers (drawdown : ℚ) :
    firstTier drawdown 0 defaultTiers =
      if drawdown ≤ -1 / 20 then some (1, tier1) else none := by
  by_cases h : drawdown ≤ -1 / 20
  · rw [if_pos h]
    exact if_pos h
  · have hnot : ∀ tier ∈ defaultTiers, ¬ drawdown ≤ tier.threshold :=
      fun tier hmem hle => h (threshold_le hmem hle)
    simp only [defaultTiers, List.forall_mem_cons] at hnot
    simp only [firstTier, defaultTiers, hnot.1, hnot.2.1, hnot.2.2.1, hnot.2.2.2.1, if_false, h]

/-- **The most severe tier a drawdown reaches**, by its position from one on, and
the multiplier that goes with it; position zero is no tier. -/
def MostSevere (tiers : List CircuitBreakerTier) (drawdown : ℚ) (level : Nat) (multiplier : ℚ) :
    Prop :=
  (level = 0 ∧ multiplier = 1 ∧ ∀ tier ∈ tiers, tier.threshold < drawdown) ∨
    ∃ i tier, level = i + 1 ∧ tiers[i]? = some tier ∧ drawdown ≤ tier.threshold ∧
      multiplier = 1 - tier.sizeReduction ∧
      ∀ j tier', tiers[j]? = some tier' → drawdown ≤ tier'.threshold → j ≤ i

/-- The first tier is the most severe one until the second is reached. -/
theorem mostSevere_first_iff {drawdown : ℚ} (h : drawdown ≤ -1 / 20) :
    MostSevere defaultTiers drawdown 1 (3 / 4) ↔ -1 / 10 < drawdown := by
  constructor
  · rintro (⟨hlevel, -⟩ | ⟨i, tier, hlevel, -, -, -, hmost⟩)
    · cases hlevel
    · by_contra hlow
      have := hmost 1 tier2 rfl (not_lt.mp hlow)
      omega
  · intro hlow
    refine Or.inr ⟨0, tier1, rfl, rfl, h, by norm_num [tier1], fun j tier' htier hle => ?_⟩
    by_contra hj
    have hbelow : tier'.threshold ≤ -1 / 10 := by
      obtain ⟨j, rfl⟩ := Nat.exists_eq_succ_of_ne_zero (by omega : j ≠ 0)
      have hmem : tier' ∈ [tier2, tier3, tier4] := List.mem_of_getElem? htier
      simp only [List.mem_cons, List.not_mem_nil, or_false] at hmem
      rcases hmem with rfl | rfl | rfl
      · exact le_rfl
      · norm_num [tier3]
      · norm_num [tier4]
    exact absurd (hle.trans hbelow) (not_le.mpr hlow)

/-- Above the first threshold there is no tier. -/
theorem mostSevere_none {drawdown : ℚ} (h : -1 / 20 < drawdown) :
    MostSevere defaultTiers drawdown 0 1 :=
  Or.inl ⟨rfl, rfl, fun _ hmem =>
    not_le.mp fun hle => absurd (threshold_le hmem hle) (not_le.mpr h)⟩

/-! ## Runs -/

/-- One call of `update`: the value, and the reading of the clock. -/
structure ValueUpdate where
  value : ℚ
  now : Nat
  deriving Repr, DecidableEq

/-- A tracker, and whether an update so far has reached the critical drawdown. -/
structure DrawdownRun where
  tracker : DrawdownTracker
  critical : Bool
  deriving Repr, DecidableEq

namespace DrawdownRun

/-- A new tracker. -/
def init (initialValue maxAllowedDrawdown : ℚ) : DrawdownRun :=
  ⟨.new initialValue maxAllowedDrawdown, false⟩

/-- One update. -/
def step (r : DrawdownRun) (u : ValueUpdate) : Option DrawdownRun :=
  some
    { tracker := (r.tracker.update u.value u.now).2
      critical := r.critical || (r.tracker.update u.value u.now).1.currentDrawdown ≤ -1 / 5 }

/-- **The tiers escalate and the critical halt sticks.** -/
structure Escalates (r : DrawdownRun) (u : ValueUpdate) (r' : DrawdownRun) : Prop where
  /-- Until it is critical, the tier reported is the one that the drawdown calls for. -/
  tier : r.critical = false →
    MostSevere defaultTiers (r.tracker.update u.value u.now).1.currentDrawdown
      r'.tracker.breakerStatus.activeTier r'.tracker.sizeMultiplier
  /-- After that no one may trade. -/
  halted : r'.critical = true → ∀ later, u.now ≤ later → r'.tracker.canTrade later = false

/-- **The value stays near the peak**: above nine tenths of the larger of the peak
so far and the value itself. -/
def NearPeak (r : DrawdownRun) (u : ValueUpdate) (_ : DrawdownRun) : Prop :=
  9 / 10 * max r.tracker.peakValue u.value < u.value

instance (r : DrawdownRun) (u : ValueUpdate) (r' : DrawdownRun) : Decidable (NearPeak r u r') :=
  inferInstanceAs (Decidable (_ < _))

/-- The invariant: no tier has set a halt, and nothing but updates has happened. -/
structure Inv (r : DrawdownRun) : Prop where
  /-- The tiers are the default ones. -/
  tiers : r.tracker.tiers = defaultTiers
  /-- No halt was set, -/
  haltEndNs : r.tracker.haltEndNs = 0
  manuallyOverridden : r.tracker.manuallyOverridden = false
  /-- and the critical drawdown was not reached. -/
  critical : r.critical = false

/-- The drawdown of an update. -/
def drawdownAt (r : DrawdownRun) (value : ℚ) : ℚ :=
  (value - max r.tracker.peakValue value) / max r.tracker.peakValue value

/-- The drawdown of an update does not depend on the breaker. -/
theorem currentDrawdown_observe (r : DrawdownRun) (value : ℚ) :
    (r.tracker.observe value).currentDrawdown = r.drawdownAt value := by
  have hpeak : (if value > r.tracker.peakValue then value else r.tracker.peakValue) =
      max r.tracker.peakValue value := by
    rw [max_def_lt]
  simp only [DrawdownTracker.observe, DrawdownTracker.currentDrawdown, drawdownAt, hpeak]

/-- The status the updates of a run can leave. -/
def statusAt (drawdown : ℚ) : CircuitBreakerStatus :=
  if drawdown ≤ -1 / 20 then ⟨true, 1, 3 / 4, none, false⟩ else .inactive

/-- **What an update does**, under the invariant: it activates the first tier or
none, and sets no halt. -/
theorem Inv.update_eq {r : DrawdownRun} (inv : r.Inv) (u : ValueUpdate) :
    (r.tracker.update u.value u.now).2 =
      { r.tracker.observe u.value with breakerStatus := statusAt (r.drawdownAt u.value) } := by
  have hhalt : (r.tracker.observe u.value).haltEndNs = 0 := inv.haltEndNs
  have hfind : firstTier (r.drawdownAt u.value) 0 (r.tracker.observe u.value).tiers =
      if r.drawdownAt u.value ≤ -1 / 20 then some (1, tier1) else none := by
    rw [show (r.tracker.observe u.value).tiers = defaultTiers from inv.tiers]
    exact firstTier_defaultTiers _
  have hselect : (r.tracker.observe u.value).selectTier (r.drawdownAt u.value) u.now =
      { r.tracker.observe u.value with breakerStatus := statusAt (r.drawdownAt u.value) } := by
    unfold DrawdownTracker.selectTier statusAt
    rw [hfind]
    by_cases hfirst : r.drawdownAt u.value ≤ -1 / 20
    · have hend : DrawdownTracker.haltEndAfter 0 u.now tier1 = 0 := rfl
      have hmultiplier : 1 - tier1.sizeReduction = 3 / 4 := by norm_num [tier1]
      rw [if_pos hfirst, if_pos hfirst]
      simp only [hhalt, hend, hmultiplier]
      rfl
    · rw [if_neg hfirst, if_neg hfirst]
      simp only [hhalt]
      rfl
  show (r.tracker.observe u.value).updateCircuitBreaker
    (r.tracker.observe u.value).currentDrawdown u.now = _
  rw [currentDrawdown_observe, DrawdownTracker.updateCircuitBreaker, hhalt,
    if_neg (fun h => absurd h.1 (lt_irrefl 0)), hselect]

/-- The drawdown that is reported. -/
theorem Inv.currentDrawdown_update {r : DrawdownRun} (inv : r.Inv) (u : ValueUpdate) :
    (r.tracker.update u.value u.now).1.currentDrawdown = r.drawdownAt u.value := by
  show (r.tracker.update u.value u.now).2.currentDrawdown = r.drawdownAt u.value
  rw [inv.update_eq u]
  exact currentDrawdown_observe r u.value

/-- Nine tenths of the peak, in terms of the drawdown. -/
theorem nearPeak_iff (r : DrawdownRun) (u : ValueUpdate) (r' : DrawdownRun) (hpos : 0 < u.value) :
    r.NearPeak u r' ↔ -1 / 10 < r.drawdownAt u.value := by
  have hpeak : 0 < max r.tracker.peakValue u.value := lt_max_of_lt_right hpos
  rw [NearPeak, drawdownAt, lt_div_iff₀ hpeak]
  constructor <;> intro h <;> linarith

/-- The status of an update is the most severe one just while the second tier is
not reached. -/
theorem mostSevere_statusAt_iff (drawdown : ℚ) :
    MostSevere defaultTiers drawdown (statusAt drawdown).activeTier
        (statusAt drawdown).sizeMultiplier ↔
      -1 / 10 < drawdown := by
  unfold statusAt
  split
  · rename_i h
    exact mostSevere_first_iff h
  · rename_i h
    rw [not_le] at h
    exact iff_of_true (mostSevere_none h) (lt_trans (by norm_num) h)

/-- An update keeps the invariant as long as the drawdown is not critical. -/
theorem Inv.step {r r' : DrawdownRun} {u : ValueUpdate} (inv : r.Inv)
    (hstep : r.step u = some r') (hnear : -1 / 10 < r.drawdownAt u.value) : r'.Inv := by
  cases hstep
  have hcritical : ¬ r.drawdownAt u.value ≤ -1 / 5 := by
    intro h
    linarith
  refine ⟨?_, ?_, ?_, ?_⟩
  · rw [inv.update_eq u]
    exact inv.tiers
  · rw [inv.update_eq u]
    exact inv.haltEndNs
  · rw [inv.update_eq u]
    exact inv.manuallyOverridden
  · show (r.critical || decide (_ ≤ _)) = false
    rw [inv.critical, inv.currentDrawdown_update u, Bool.false_or, decide_eq_false hcritical]

/-- **An update escalates just when the value is near the peak.** -/
theorem Inv.escalates_iff {r r' : DrawdownRun} {u : ValueUpdate} (inv : r.Inv)
    (hstep : r.step u = some r') (hpos : 0 < u.value) :
    r.Escalates u r' ↔ r.NearPeak u r' := by
  rw [nearPeak_iff r u r' hpos]
  have htracker : r'.tracker =
      { r.tracker.observe u.value with breakerStatus := statusAt (r.drawdownAt u.value) } := by
    cases hstep
    exact inv.update_eq u
  have hmultiplier :
      r'.tracker.sizeMultiplier = (statusAt (r.drawdownAt u.value)).sizeMultiplier := by
    rw [htracker]
    exact if_neg (by rw [show (r.tracker.observe u.value).manuallyOverridden = false from
      inv.manuallyOverridden]; exact Bool.false_ne_true)
  have htier : MostSevere defaultTiers (r.tracker.update u.value u.now).1.currentDrawdown
        r'.tracker.breakerStatus.activeTier r'.tracker.sizeMultiplier ↔
      -1 / 10 < r.drawdownAt u.value := by
    rw [inv.currentDrawdown_update u, hmultiplier, htracker]
    exact mostSevere_statusAt_iff _
  constructor
  · intro h
    exact htier.mp (h.tier inv.critical)
  · intro hnear
    refine ⟨fun _ => htier.mpr hnear, fun hcritical => ?_⟩
    rw [(inv.step hstep hnear).critical] at hcritical
    cases hcritical

/-- **When the drawdown breaker escalates.**  For every initial value and allowed
drawdown and every sequence of positive values, at whatever times: just when
every value stays near the peak. -/
theorem escalates_iff_nearPeak (initialValue maxAllowedDrawdown : ℚ) (updates : List ValueUpdate)
    (hpositive : ∀ u ∈ updates, 0 < u.value) :
    AllSteps step NearPeak (init initialValue maxAllowedDrawdown) updates ↔
      AllSteps step Escalates (init initialValue maxAllowedDrawdown) updates := by
  have start : (init initialValue maxAllowedDrawdown).Inv := ⟨rfl, rfl, rfl, rfl⟩
  exact allSteps_iff_of_invariant
    (fun r u r' inv hstep hpos near =>
      ⟨inv.step hstep ((nearPeak_iff r u r' hpos).mp near),
        (inv.escalates_iff hstep hpos).mpr near⟩)
    (fun r u r' inv hstep hpos escalates => (inv.escalates_iff hstep hpos).mp escalates)
    updates _ start (allSteps_of_forall_mem updates _ hpositive)

/-- The theorem on a value that falls by 8 %. -/
theorem escalates_mild :
    AllSteps step Escalates (init 100 (-1 / 2)) [⟨100, 0⟩, ⟨92, 1⟩] := by
  exact (escalates_iff_nearPeak 100 (-1 / 2) _ (by norm_num)).mp (by decide +kernel)

/-- **The critical tier is not reached**: at a loss of a quarter the first tier is
active, and trading goes on. -/
theorem not_forall_escalates :
    ¬ ∀ (initialValue maxAllowedDrawdown : ℚ) (updates : List ValueUpdate),
      (∀ u ∈ updates, 0 < u.value) →
      AllSteps step Escalates (init initialValue maxAllowedDrawdown) updates := by
  intro h
  obtain ⟨hescalates, -⟩ := h 100 (-1 / 2) [⟨75, 0⟩] (by norm_num)
  have hhalted := hescalates.halted (by decide +kernel) 0 le_rfl
  revert hhalted
  decide +kernel

end DrawdownRun

end StopTrading.Risk
