import StopTrading.Library.MachineInt
import StopTrading.Library.Transition

/-!
# The margin calculator

`MarginCalculator` keeps the equity of an account as an `i64`, its used margin as
a `u64`, and a flag that says whether the account is healthy.  The three updates
recompute the flag with `check_health`.  Wrapping arithmetic is spelled out by
`i64` and `u64`; `MarginRun` carries the exact sums beside the machine words, and
`HealthyAt` is the exact verdict on them.

The totals are always the exact ones (`MarginRun.Faithful`).  The flag is not, for
two reasons, and `ChecksExactly` describes the steps that neither of them spoils:

* the ratio is computed in 128 bits and then narrowed to 64.  A ratio from
  `2 ^ 64` on is a margin call, but what is left of it need not be;
* a decrease of the equity is checked at the wrong value.  `fetch_sub` returns the
  old equity, the amount that was taken off it is added back twice, and the check
  is made at `equity + |delta|` instead of `equity - |delta|`.

### What is load-bearing

The totals are easy and the flag is not, so they are separated.  `Faithful` is an invariant of
every valid run, whatever the flag says.  The flag is a function of the totals at the last check
and of nothing before it, because `check_health` recomputes it; `calculator_eq` gives it after
any operation as the narrowed verdict at `checkedAt`.  Whether that is the exact verdict is then
a question about three numbers, and both conditions answer it without a run.

Both are exact conditions rather than bounds.  A ratio that does not fit may still be a margin
call after it was narrowed, and a check at the wrong value may still come out right.
-/

namespace StopTrading.Risk

open MachineInt Transition

/-- `MarginCalculator`. -/
structure MarginCalculator where
  totalEquity : Int
  totalUsedMargin : Nat
  isHealthy : Bool
  marginCallThresholdBps : Nat
  deriving Repr, DecidableEq

/-- The margin ratio in basis points, as computed in 128 bits. -/
def marginRatioBps (equity : Int) (used : Nat) : Nat :=
  used * 10000 / equity.toNat

namespace MarginCalculator

/-- `MarginCalculator::new`. -/
def new (initialEquity : Int) (marginCallThresholdBps : Nat) : MarginCalculator where
  totalEquity := initialEquity
  totalUsedMargin := 0
  isHealthy := true
  marginCallThresholdBps := marginCallThresholdBps

/-- `check_health`. -/
def checkHealth (m : MarginCalculator) (equity : Int) : MarginCalculator :=
  if equity ≤ 0 then { m with isHealthy := false }
  else
    let ratioBps := marginRatioBps equity m.totalUsedMargin % 2 ^ 64
    if ratioBps ≥ m.marginCallThresholdBps then { m with isHealthy := false }
    else { m with isHealthy := true }

/-- `update_total_equity`. -/
def updateTotalEquity (m : MarginCalculator) (delta : Int) : MarginCalculator :=
  if delta ≥ 0 then
    let newEquity := i64 (m.totalEquity + delta)
    { m with totalEquity := i64 (m.totalEquity + delta) }.checkHealth newEquity
  else
    -- `fetch_sub(-delta)` returns the equity before the subtraction
    let newEquity := i64 (m.totalEquity - delta)
    { m with totalEquity := i64 (m.totalEquity - i64 (-delta)) }.checkHealth newEquity

/-- `update_total_used_margin`. -/
def updateTotalUsedMargin (m : MarginCalculator) (delta : Int) : MarginCalculator :=
  if delta ≥ 0 then
    { m with totalUsedMargin := u64 (m.totalUsedMargin + u64 delta) }.checkHealth m.totalEquity
  else
    { m with totalUsedMargin := u64 (m.totalUsedMargin - u64 (i64 (-delta))) }.checkHealth
      m.totalEquity

/-- `set_margin_call_threshold`. -/
def setMarginCallThreshold (m : MarginCalculator) (thresholdBps : Nat) : MarginCalculator :=
  { m with marginCallThresholdBps := thresholdBps }

/-- `reset_health`. -/
def resetHealth (m : MarginCalculator) : MarginCalculator := m.checkHealth m.totalEquity

/-- **What `check_health` does**: the flag becomes the verdict at the equity it is
given, with the ratio narrowed, and nothing else changes. -/
theorem checkHealth_eq (m : MarginCalculator) (equity : Int) :
    m.checkHealth equity =
      { m with
        isHealthy := decide (0 < equity ∧
          marginRatioBps equity m.totalUsedMargin % 2 ^ 64 < m.marginCallThresholdBps) } := by
  unfold checkHealth
  split
  · rename_i hequity
    rw [decide_eq_false (fun h => absurd h.1 (not_lt.mpr hequity))]
  · rename_i hequity
    have hpos := not_le.mp hequity
    dsimp only
    split
    · rename_i hratio
      rw [decide_eq_false (fun h => absurd h.2 (not_lt.mpr hratio))]
    · rename_i hratio
      rw [decide_eq_true ⟨hpos, not_le.mp hratio⟩]

end MarginCalculator

/-! ## The exact verdict -/

/-- **The account is healthy**, in exact integer arithmetic. -/
def HealthyAt (equity : Int) (used : Nat) (thresholdBps : Nat) : Prop :=
  0 < equity ∧ (used : Int) * 10000 / equity < thresholdBps

instance (equity : Int) (used thresholdBps : Nat) :
    Decidable (HealthyAt equity used thresholdBps) :=
  inferInstanceAs (Decidable (_ ∧ _))

/-- The verdict in terms of the ratio the code computes. -/
theorem healthyAt_iff (equity : Int) (used thresholdBps : Nat) :
    HealthyAt equity used thresholdBps ↔
      0 < equity ∧ marginRatioBps equity used < thresholdBps := by
  refine and_congr_right fun hpos => ?_
  obtain ⟨n, rfl⟩ := Int.eq_ofNat_of_zero_le hpos.le
  have hcast : (used : Int) * 10000 / (n : Int) = ((used * 10000 / n : Nat) : Int) := by
    norm_cast
  rw [hcast, marginRatioBps, Int.toNat_natCast]
  exact Int.ofNat_lt

/-- The ratio is narrowed without harm: it fits, or what is left of it still is a
margin call. -/
def RatioFits (equity : Int) (used thresholdBps : Nat) : Prop :=
  equity ≤ 0 ∨ marginRatioBps equity used < 2 ^ 64 ∨
    thresholdBps ≤ marginRatioBps equity used % 2 ^ 64

/-- The equity is decreased without harm: the account stays healthy and the value
the check is made at does not overflow, or the account is not healthy and the
check at that value does not say otherwise. -/
def DecreaseFits (equity delta : Int) (used thresholdBps : Nat) : Prop :=
  if HealthyAt (equity + delta) used thresholdBps then equity - delta < 2 ^ 63
  else
    2 ^ 63 ≤ equity - delta ∨ equity - delta ≤ 0 ∨
      thresholdBps ≤ marginRatioBps (equity - delta) used % 2 ^ 64

instance (equity : Int) (used thresholdBps : Nat) :
    Decidable (RatioFits equity used thresholdBps) :=
  inferInstanceAs (Decidable (_ ∨ _ ∨ _))

instance (equity delta : Int) (used thresholdBps : Nat) :
    Decidable (DecreaseFits equity delta used thresholdBps) :=
  inferInstanceAs (Decidable
    (if HealthyAt (equity + delta) used thresholdBps then equity - delta < 2 ^ 63
    else _ ∨ _ ∨ _))

/-- **When the narrowed ratio gives the exact verdict.** -/
theorem verdict_iff_ratioFits {equity : Int} {used thresholdBps : Nat}
    (hthreshold : thresholdBps < 2 ^ 64) :
    ((0 < equity ∧ marginRatioBps equity used % 2 ^ 64 < thresholdBps) ↔
        HealthyAt equity used thresholdBps) ↔ RatioFits equity used thresholdBps := by
  rw [healthyAt_iff, RatioFits]
  generalize marginRatioBps equity used = ratio
  by_cases hequity : equity ≤ 0
  · exact iff_of_true (by omega) (Or.inl hequity)
  · by_cases hfits : ratio < 2 ^ 64
    · rw [Nat.mod_eq_of_lt hfits]
      exact iff_of_true Iff.rfl (Or.inr (Or.inl hfits))
    · constructor
      · intro hiff
        right; right
        by_contra hlow
        have := (hiff.mp ⟨by omega, by omega⟩).2
        omega
      · rintro (h | h | h)
        · exact absurd h hequity
        · exact absurd h hfits
        · exact iff_of_false (by omega) (by omega)

/-- More equity means a smaller ratio. -/
theorem marginRatioBps_anti {lower upper : Int} {used : Nat} (hlower : 0 < lower)
    (hle : lower ≤ upper) : marginRatioBps upper used ≤ marginRatioBps lower used := by
  unfold marginRatioBps
  exact Nat.div_le_div_left (Int.toNat_le_toNat hle) (by omega)

/-- **When the check at the wrong value gives the exact verdict.** -/
theorem verdict_iff_decreaseFits {equity delta : Int} {used thresholdBps : Nat}
    (hequity : -2 ^ 63 ≤ equity ∧ equity < 2 ^ 63)
    (hdelta : -2 ^ 63 < delta ∧ delta < 0) :
    ((0 < i64 (equity - delta) ∧
          marginRatioBps (i64 (equity - delta)) used % 2 ^ 64 < thresholdBps) ↔
        HealthyAt (equity + delta) used thresholdBps) ↔
      DecreaseFits equity delta used thresholdBps := by
  unfold DecreaseFits
  by_cases hover : equity - delta < 2 ^ 63
  · rw [i64_of_range (by omega) hover]
    split
    · rename_i hhealthy
      obtain ⟨hpos, hratio⟩ := (healthyAt_iff ..).mp hhealthy
      have hanti : marginRatioBps (equity - delta) used ≤ marginRatioBps (equity + delta) used :=
        marginRatioBps_anti hpos (by omega)
      refine iff_of_true (iff_of_true ⟨by omega, ?_⟩ hhealthy) hover
      exact (Nat.mod_le _ _).trans_lt (hanti.trans_lt hratio)
    · rename_i hsick
      rw [iff_false_right hsick, not_and_or, not_lt, not_lt, or_iff_right (not_le.mpr hover)]
  · rw [i64_of_ge (by omega) (by omega)]
    have hneg : ¬ 0 < equity - delta - 2 ^ 64 := by omega
    split
    · rename_i hhealthy
      exact iff_of_false (fun h => hneg (h.mpr hhealthy).1) hover
    · rename_i hsick
      exact iff_of_true (iff_of_false (fun h => hneg h.1) hsick) (Or.inl (not_lt.mp hover))

/-! ## Runs -/

/-- The operations on a calculator. -/
inductive MarginOp where
  | updateTotalEquity (delta : Int)
  | updateTotalUsedMargin (delta : Int)
  | setMarginCallThreshold (thresholdBps : Nat)
  | resetHealth
  deriving Repr, DecidableEq

/-- A calculator with the initial equity plus the equity deltas, and the sum of
the margin deltas. -/
structure MarginRun where
  calculator : MarginCalculator
  equity : Int
  used : Int
  deriving Repr, DecidableEq

namespace MarginRun

/-- `new`, before any delta. -/
def init (initialEquity : Int) (thresholdBps : Nat) : MarginRun :=
  ⟨.new initialEquity thresholdBps, initialEquity, 0⟩

/-- One operation. -/
def step (r : MarginRun) : MarginOp → Option MarginRun
  | .updateTotalEquity delta =>
      some
        { r with
          calculator := r.calculator.updateTotalEquity delta
          equity := r.equity + delta }
  | .updateTotalUsedMargin delta =>
      some
        { r with
          calculator := r.calculator.updateTotalUsedMargin delta
          used := r.used + delta }
  | .setMarginCallThreshold thresholdBps =>
      some { r with calculator := r.calculator.setMarginCallThreshold thresholdBps }
  | .resetHealth => some { r with calculator := r.calculator.resetHealth }

/-- What the callers promise: arguments of their types, no delta of `i64::MIN`,
and exact sums that stay in range. -/
def Valid (_ : MarginRun) (op : MarginOp) (r' : MarginRun) : Prop :=
  (match op with
    | .updateTotalEquity delta => -2 ^ 63 < delta ∧ delta < 2 ^ 63
    | .updateTotalUsedMargin delta => -2 ^ 63 < delta ∧ delta < 2 ^ 63
    | .setMarginCallThreshold thresholdBps => thresholdBps < 2 ^ 64
    | .resetHealth => True) ∧
  (-2 ^ 63 ≤ r'.equity ∧ r'.equity < 2 ^ 63) ∧ 0 ≤ r'.used ∧ r'.used < 2 ^ 63

instance (r : MarginRun) (op : MarginOp) (r' : MarginRun) : Decidable (Valid r op r') :=
  match op with
  | .updateTotalEquity _ => inferInstanceAs (Decidable ((_ ∧ _) ∧ _ ∧ _))
  | .updateTotalUsedMargin _ => inferInstanceAs (Decidable ((_ ∧ _) ∧ _ ∧ _))
  | .setMarginCallThreshold _ => inferInstanceAs (Decidable (_ ∧ _ ∧ _))
  | .resetHealth => inferInstanceAs (Decidable (_ ∧ _ ∧ _))

/-- The operation ends with a check of the health. -/
def checks : MarginOp → Bool
  | .setMarginCallThreshold _ => false
  | _ => true

/-- **The calculator is exact**: its totals are the sums, and after a check its
flag is the verdict on them. -/
structure Exact (_ : MarginRun) (op : MarginOp) (r' : MarginRun) : Prop where
  /-- The totals are the sums of what was given, -/
  equity : r'.calculator.totalEquity = r'.equity
  used : (r'.calculator.totalUsedMargin : Int) = r'.used
  /-- and the flag is right at every check. -/
  healthy : checks op = true →
    (r'.calculator.isHealthy = true ↔
      0 < r'.equity ∧ r'.used * 10000 / r'.equity < r'.calculator.marginCallThresholdBps)

/-- **The check of the step is exact**: the ratio is narrowed without harm, and so
is the equity decreased. -/
def ChecksExactly (r : MarginRun) (op : MarginOp) (_ : MarginRun) : Prop :=
  match op with
  | .updateTotalEquity delta =>
      if delta ≥ 0 then
        RatioFits (r.equity + delta) r.used.toNat r.calculator.marginCallThresholdBps
      else DecreaseFits r.equity delta r.used.toNat r.calculator.marginCallThresholdBps
  | .updateTotalUsedMargin delta =>
      RatioFits r.equity (r.used + delta).toNat r.calculator.marginCallThresholdBps
  | .setMarginCallThreshold _ => True
  | .resetHealth => RatioFits r.equity r.used.toNat r.calculator.marginCallThresholdBps

instance (r : MarginRun) (op : MarginOp) (r' : MarginRun) : Decidable (ChecksExactly r op r') :=
  match op with
  | .updateTotalEquity delta =>
      inferInstanceAs (Decidable (if delta ≥ 0 then RatioFits _ _ _ else DecreaseFits _ _ _ _))
  | .updateTotalUsedMargin _ => inferInstanceAs (Decidable (RatioFits _ _ _))
  | .setMarginCallThreshold _ => inferInstanceAs (Decidable True)
  | .resetHealth => inferInstanceAs (Decidable (RatioFits _ _ _))

/-- **The totals are the exact sums**, in range, and the threshold is a word. -/
structure Faithful (r : MarginRun) : Prop where
  equity : r.calculator.totalEquity = r.equity
  used : r.calculator.totalUsedMargin = r.used.toNat
  /-- The sums are in the range of the words that hold them. -/
  equity_range : -2 ^ 63 ≤ r.equity ∧ r.equity < 2 ^ 63
  used_range : 0 ≤ r.used ∧ r.used < 2 ^ 63
  /-- The threshold is a word too. -/
  threshold_lt : r.calculator.marginCallThresholdBps < 2 ^ 64

/-- The value an operation is checked at. -/
def checkedAt (r : MarginRun) : MarginOp → Int
  | .updateTotalEquity delta =>
      if delta ≥ 0 then r.equity + delta else i64 (r.equity - delta)
  | _ => r.equity

/-- The equity after an update of either sign. -/
theorem updateTotalEquity_eq {m : MarginCalculator} {delta : Int}
    (hdelta : -2 ^ 63 < delta ∧ delta < 2 ^ 63)
    (hrange : -2 ^ 63 ≤ m.totalEquity + delta ∧ m.totalEquity + delta < 2 ^ 63) :
    m.updateTotalEquity delta =
      { m with totalEquity := m.totalEquity + delta }.checkHealth
        (if delta ≥ 0 then m.totalEquity + delta else i64 (m.totalEquity - delta)) := by
  unfold MarginCalculator.updateTotalEquity
  split
  · rw [i64_of_range hrange.1 hrange.2]
  · have hneg : i64 (-delta) = -delta := i64_of_range (by omega) (by omega)
    rw [hneg, sub_neg_eq_add, i64_of_range hrange.1 hrange.2]

/-- The used margin after an update of either sign. -/
theorem updateTotalUsedMargin_eq {m : MarginCalculator} {delta : Int}
    (hdelta : -2 ^ 63 < delta ∧ delta < 2 ^ 63)
    (hrange : 0 ≤ (m.totalUsedMargin : Int) + delta ∧ (m.totalUsedMargin : Int) + delta < 2 ^ 63) :
    m.updateTotalUsedMargin delta =
      { m with totalUsedMargin := ((m.totalUsedMargin : Int) + delta).toNat }.checkHealth
        m.totalEquity := by
  unfold MarginCalculator.updateTotalUsedMargin
  split
  · rename_i hpos
    rw [u64_of_range hpos (by omega), Int.toNat_of_nonneg hpos,
      u64_of_range hrange.1 (by omega)]
  · have hneg : i64 (-delta) = -delta := i64_of_range (by omega) (by omega)
    have hword : ((u64 (-delta) : Nat) : Int) = -delta := by
      rw [u64_of_range (by omega) (by omega), Int.toNat_of_nonneg (by omega)]
    rw [hneg, hword, sub_neg_eq_add, u64_of_range hrange.1 (by omega)]

/-- **The calculator after a check**: the totals are the exact sums, and the flag
is the narrowed verdict at the value that is checked. -/
theorem calculator_eq {r r' : MarginRun} {op : MarginOp} (h : r.Faithful)
    (hstep : r.step op = some r') (hvalid : r.Valid op r') (hop : checks op = true) :
    r'.calculator =
      { totalEquity := r'.equity
        totalUsedMargin := r'.used.toNat
        isHealthy := decide (0 < r.checkedAt op ∧
          marginRatioBps (r.checkedAt op) r'.used.toNat % 2 ^ 64 <
            r.calculator.marginCallThresholdBps)
        marginCallThresholdBps := r.calculator.marginCallThresholdBps } := by
  obtain ⟨harg, hequity, hused⟩ := hvalid
  cases op with
  | setMarginCallThreshold => cases hop
  | updateTotalEquity delta =>
      cases hstep
      change -2 ^ 63 ≤ r.equity + delta ∧ r.equity + delta < 2 ^ 63 at hequity
      show r.calculator.updateTotalEquity delta = _
      rw [updateTotalEquity_eq harg (by rw [h.equity]; exact hequity),
        MarginCalculator.checkHealth_eq, h.equity, h.used]
      rfl
  | updateTotalUsedMargin delta =>
      cases hstep
      change 0 ≤ r.used + delta ∧ r.used + delta < 2 ^ 63 at hused
      have hcast : (r.calculator.totalUsedMargin : Int) = r.used := by
        rw [h.used, Int.toNat_of_nonneg h.used_range.1]
      show r.calculator.updateTotalUsedMargin delta = _
      rw [updateTotalUsedMargin_eq harg (by rw [hcast]; exact hused),
        MarginCalculator.checkHealth_eq, h.equity, hcast]
      rfl
  | resetHealth =>
      cases hstep
      show r.calculator.resetHealth = _
      rw [MarginCalculator.resetHealth, MarginCalculator.checkHealth_eq, h.equity, h.used]
      rfl

/-- **One operation** keeps the totals exact. -/
theorem faithful_step {r r' : MarginRun} {op : MarginOp} (h : r.Faithful)
    (hstep : r.step op = some r') (hvalid : r.Valid op r') : r'.Faithful := by
  have hranges := hvalid.2
  cases hop : checks op with
  | true =>
      have hcalc := calculator_eq h hstep hvalid hop
      refine ⟨?_, ?_, hranges.1, hranges.2, ?_⟩ <;> rw [hcalc]
      exact h.threshold_lt
  | false =>
      cases op with
      | setMarginCallThreshold thresholdBps =>
          cases hstep
          exact ⟨h.equity, h.used, hranges.1, hranges.2, hvalid.1⟩
      | updateTotalEquity | updateTotalUsedMargin | resetHealth => cases hop

/-- **The verdict of a step is exact just when its check is.** -/
theorem verdict_iff_checksExactly {r r' : MarginRun} {op : MarginOp} (h : r.Faithful)
    (hstep : r.step op = some r') (hvalid : r.Valid op r') (hop : checks op = true) :
    ((0 < r.checkedAt op ∧
          marginRatioBps (r.checkedAt op) r'.used.toNat % 2 ^ 64 <
            r.calculator.marginCallThresholdBps) ↔
        HealthyAt r'.equity r'.used.toNat r.calculator.marginCallThresholdBps) ↔
      r.ChecksExactly op r' := by
  cases op with
  | setMarginCallThreshold => cases hop
  | updateTotalEquity delta =>
      cases hstep
      unfold checkedAt ChecksExactly
      dsimp only
      split
      · exact verdict_iff_ratioFits h.threshold_lt
      · exact verdict_iff_decreaseFits h.equity_range ⟨hvalid.1.1, by omega⟩
  | updateTotalUsedMargin delta =>
      cases hstep
      exact verdict_iff_ratioFits h.threshold_lt
  | resetHealth =>
      cases hstep
      exact verdict_iff_ratioFits h.threshold_lt

/-- A step is exact just when its check is. -/
theorem exact_iff_checksExactly {r r' : MarginRun} {op : MarginOp} (h : r.Faithful)
    (hstep : r.step op = some r') (hvalid : r.Valid op r') :
    r.Exact op r' ↔ r.ChecksExactly op r' := by
  have h' := faithful_step h hstep hvalid
  have hused : (r'.calculator.totalUsedMargin : Int) = r'.used := by
    rw [h'.used, Int.toNat_of_nonneg h'.used_range.1]
  cases hop : checks op with
  | true =>
      rw [← verdict_iff_checksExactly h hstep hvalid hop]
      have hcalc := calculator_eq h hstep hvalid hop
      have hflag : r'.calculator.isHealthy = true ↔ 0 < r.checkedAt op ∧
          marginRatioBps (r.checkedAt op) r'.used.toNat % 2 ^ 64 <
            r.calculator.marginCallThresholdBps := by
        rw [hcalc, decide_eq_true_iff]
      have hverdict : HealthyAt r'.equity r'.used.toNat r.calculator.marginCallThresholdBps ↔
          0 < r'.equity ∧
            r'.used * 10000 / r'.equity < r'.calculator.marginCallThresholdBps := by
        rw [HealthyAt, Int.toNat_of_nonneg h'.used_range.1, hcalc]
      rw [← hflag, hverdict]
      exact ⟨fun exact' => exact'.healthy hop, fun hiff => ⟨h'.equity, hused, fun _ => hiff⟩⟩
  | false =>
      cases op with
      | setMarginCallThreshold =>
          exact iff_of_true ⟨h'.equity, hused, fun hcheck => by rw [hop] at hcheck; cases hcheck⟩
            trivial
      | updateTotalEquity | updateTotalUsedMargin | resetHealth => cases hop

/-- **When the margin calculator is exact.**  For every initial equity and
threshold and every valid run: the totals are the exact sums throughout, and the
flag is the exact verdict after each check just when every check is made without
harm. -/
theorem exact_iff_checks (initialEquity : Int) (thresholdBps : Nat) (ops : List MarginOp)
    (hequity : -2 ^ 63 ≤ initialEquity ∧ initialEquity < 2 ^ 63)
    (hthreshold : thresholdBps < 2 ^ 64)
    (hvalid : AllSteps step Valid (init initialEquity thresholdBps) ops) :
    AllStates step Faithful (init initialEquity thresholdBps) ops ∧
      (AllSteps step ChecksExactly (init initialEquity thresholdBps) ops ↔
        AllSteps step Exact (init initialEquity thresholdBps) ops) := by
  have start : (init initialEquity thresholdBps).Faithful :=
    ⟨rfl, rfl, hequity, ⟨le_rfl, by norm_num [init]⟩, hthreshold⟩
  constructor
  · exact AllStates.of_invariant (fun _ h => h)
      (fun r op r' h hstep valid => faithful_step h hstep valid) start hvalid
  · exact allSteps_iff_of_step_iff
      (fun r op r' h hstep valid _ => faithful_step h hstep valid)
      (fun r op r' h hstep valid => (exact_iff_checksExactly h hstep valid).symm)
      ops start hvalid

/-- The theorem on an account that is funded and then uses a part of its margin. -/
theorem exact_funded :
    AllSteps step Exact (init 0 8000)
      [.updateTotalEquity 1000, .updateTotalUsedMargin 500, .resetHealth] := by
  exact (exact_iff_checks 0 8000 _ (by norm_num) (by norm_num) (by decide +kernel)).2.mp
    (by decide +kernel)

/-- **A hidden margin call**: an equity of 1000 with 700 in use loses 200.  The
ratio is then 87.5 %, beyond the threshold, but the check is made at 1200. -/
theorem not_forall_exact :
    ¬ ∀ (initialEquity : Int) (thresholdBps : Nat) (ops : List MarginOp),
      (-2 ^ 63 ≤ initialEquity ∧ initialEquity < 2 ^ 63) → thresholdBps < 2 ^ 64 →
      AllSteps step Valid (init initialEquity thresholdBps) ops →
      AllSteps step Exact (init initialEquity thresholdBps) ops := by
  intro h
  obtain ⟨-, hexact, -⟩ := h 1000 8000 [.updateTotalUsedMargin 700, .updateTotalEquity (-200)]
    (by norm_num) (by norm_num) (by decide +kernel)
  have hverdict := hexact.healthy rfl
  revert hverdict
  decide +kernel

end MarginRun

end StopTrading.Risk
