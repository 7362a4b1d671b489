import StopTrading.Library.CentralMoments

/-!
# Online moments

The trackers keep a count, means and sums of powers of the distances from the mean in one pass.
Arithmetic is exact and the count unbounded.

`batch_after` says that the trackers of the variance, the covariance and the skewness hold what a
batch computation over the values since the last reset gives.  The tracker of the kurtosis takes the
old count where its formulas need the new one; see `OnlineKurtosis`.

### What is load-bearing

Each tracker is a structure with one `Batch`, the claim that it is at the moments of a list of
values, and one lemma that a value more keeps it there.  The lemmas are the update formulas of
`CentralMoments` in the library, which are about lists and arbitrary fields; here they are
applied in the order in which the source performs its assignments, and for the skewness this
order is the point: the third moment is updated from the second one *before* that is updated.

A reset starts a new list.  So runs are lists of feeds, and `sinceReset` is what counts of them.
-/

namespace StopTrading.Ml

open CentralMoments

/-- What is done to a tracker. -/
inductive Feed (V : Type) where
  | update (value : V)
  | reset
  deriving Repr, DecidableEq

/-- One more value, or none any more. -/
def Feed.push {V : Type} (values : List V) : Feed V → List V
  | .update value => values ++ [value]
  | .reset => []

/-- The values since the last reset. -/
def sinceReset {V : Type} (feeds : List (Feed V)) : List V := feeds.foldl Feed.push []

/-- What is true of a fresh tracker and kept by every call is true after all calls. -/
theorem foldl_feed {S V : Type} {step : S → Feed V → S} {Holds : S → List V → Prop} {start : S}
    (fresh : Holds start [])
    (keep : ∀ s values feed, Holds s values → Holds (step s feed) (feed.push values))
    (feeds : List (Feed V)) : Holds (feeds.foldl step start) (sinceReset feeds) := by
  induction feeds using List.reverseRecOn with
  | nil => exact fresh
  | append_singleton feeds feed ih =>
      rw [sinceReset, List.foldl_concat, List.foldl_concat]
      exact keep _ _ feed ih

/-! ## Variance -/

/-- `f64::MAX`. -/
def f64Max : Rat := (2 ^ 53 - 1) * 2 ^ 971

/-- `OnlineVariance`. -/
structure OnlineVariance where
  count : Nat
  mean : Rat
  m2 : Rat
  minValue : Rat
  maxValue : Rat
  isActive : Bool
  deriving Repr, DecidableEq

namespace OnlineVariance

/-- `OnlineVariance::new`. -/
def new : OnlineVariance := ⟨0, 0, 0, f64Max, -f64Max, true⟩

/-- `update`. -/
def update (s : OnlineVariance) (value : Rat) : OnlineVariance :=
  if s.isActive = false then s
  else
    let count := s.count
    let oldMean := s.mean
    let delta := value - oldMean
    let mean := oldMean + delta / (count + 1 : Nat)
    let delta2 := value - mean
    { s with
      count := count + 1
      mean := mean
      m2 := s.m2 + delta * delta2
      minValue := if value < s.minValue then value else s.minValue
      maxValue := if value > s.maxValue then value else s.maxValue }

/-- `variance`. -/
def variance (s : OnlineVariance) : Rat :=
  if s.count < 2 then 0 else s.m2 / (s.count - 1 : Nat)

/-- `reset`. -/
def reset (s : OnlineVariance) : OnlineVariance :=
  { s with count := 0, mean := 0, m2 := 0, minValue := f64Max, maxValue := -f64Max }

/-- One call. -/
def feed (s : OnlineVariance) : Feed Rat → OnlineVariance
  | .update value => s.update value
  | .reset => s.reset

/-- **The tracker holds what a batch computation gives.** -/
structure Batch (s : OnlineVariance) (values : List Rat) : Prop where
  /-- the tracker is on -/
  active : s.isActive = true
  /-- the count -/
  count : s.count = values.length
  /-- the mean -/
  mean : s.mean = CentralMoments.mean values
  /-- the second moment -/
  m2 : s.m2 = central 2 values

/-- A new tracker has seen nothing. -/
theorem batch_new : Batch new [] := ⟨rfl, rfl, mean_nil.symm, rfl⟩

/-- **One value more.** -/
theorem Batch.update {s : OnlineVariance} {values : List Rat} (h : s.Batch values) (value : Rat) :
    (s.update value).Batch (values ++ [value]) := by
  obtain ⟨hactive, hcount, hmean, hm2⟩ := h
  have hdelta := sub_mean values value
  have hstep := sub_mean_div values value rfl
  simp only [OnlineVariance.update, hactive, Bool.true_eq_false, if_false, hcount, hmean, hstep]
  refine ⟨rfl, by simp, (mean_concat values value).symm, ?_⟩
  rw [central_two_concat, hm2]
  linear_combination (value - CentralMoments.mean values - meanStep values value) * hdelta +
    (values.length + 1) * meanStep values value * hdelta

/-- One call. -/
theorem Batch.feed {s : OnlineVariance} {values : List Rat} (h : s.Batch values) (f : Feed Rat) :
    (s.feed f).Batch (f.push values) := by
  cases f with
  | update value => exact h.update value
  | reset => exact ⟨h.active, rfl, mean_nil.symm, rfl⟩

/-- The sample variance of the values. -/
theorem Batch.variance_eq {s : OnlineVariance} {values : List Rat} (h : s.Batch values)
    (htwo : 2 ≤ values.length) : s.variance = central 2 values / (values.length - 1 : Nat) := by
  rw [variance, h.count, if_neg (Nat.not_lt.mpr htwo), h.m2]

end OnlineVariance

/-! ## Covariance -/

/-- `OnlineCovariance`. -/
structure OnlineCovariance where
  count : Nat
  meanX : Rat
  meanY : Rat
  cXy : Rat
  varX : OnlineVariance
  varY : OnlineVariance
  isActive : Bool
  deriving Repr, DecidableEq

namespace OnlineCovariance

/-- `OnlineCovariance::new`. -/
def new : OnlineCovariance := ⟨0, 0, 0, 0, .new, .new, true⟩

/-- `update`. -/
def update (s : OnlineCovariance) (x y : Rat) : OnlineCovariance :=
  if s.isActive = false then s
  else
    let count := s.count
    let dx := x - s.meanX
    let dy := y - s.meanY
    let meanX := s.meanX + dx / (count + 1 : Nat)
    let meanY := s.meanY + dy / (count + 1 : Nat)
    { s with
      varX := s.varX.update x
      varY := s.varY.update y
      count := count + 1
      meanX := meanX
      meanY := meanY
      cXy := s.cXy + dx * (y - meanY) }

/-- `covariance`. -/
def covariance (s : OnlineCovariance) : Rat :=
  if s.count < 2 then 0 else s.cXy / (s.count - 1 : Nat)

/-- `reset`. -/
def reset (s : OnlineCovariance) : OnlineCovariance :=
  { s with
    count := 0
    varX := s.varX.reset
    varY := s.varY.reset
    meanX := 0
    meanY := 0
    cXy := 0 }

/-- One call. -/
def feed (s : OnlineCovariance) : Feed (Rat × Rat) → OnlineCovariance
  | .update (x, y) => s.update x y
  | .reset => s.reset

/-- **The tracker holds what a batch computation gives.** -/
structure Batch (s : OnlineCovariance) (pairs : List (Rat × Rat)) : Prop where
  active : s.isActive = true
  count : s.count = pairs.length
  meanX : s.meanX = mean (pairs.map Prod.fst)
  meanY : s.meanY = mean (pairs.map Prod.snd)
  cXy : s.cXy = coMoment pairs
  varX : s.varX.Batch (pairs.map Prod.fst)
  varY : s.varY.Batch (pairs.map Prod.snd)

theorem batch_new : Batch new [] :=
  ⟨rfl, rfl, mean_nil.symm, mean_nil.symm, rfl, OnlineVariance.batch_new, OnlineVariance.batch_new⟩

theorem Batch.update {s : OnlineCovariance} {pairs : List (Rat × Rat)} (h : s.Batch pairs)
    (x y : Rat) : (s.update x y).Batch (pairs ++ [(x, y)]) := by
  obtain ⟨hactive, hcount, hmeanX, hmeanY, hcXy, hvarX, hvarY⟩ := h
  have hdx := sub_mean (pairs.map Prod.fst) x
  have hdy := sub_mean (pairs.map Prod.snd) y
  have hstepX := sub_mean_div (pairs.map Prod.fst) x (pairs.length_map Prod.fst).symm
  have hstepY := sub_mean_div (pairs.map Prod.snd) y (pairs.length_map Prod.snd).symm
  rw [List.length_map] at hdx hdy
  have hfst : (pairs ++ [(x, y)]).map Prod.fst = pairs.map Prod.fst ++ [x] := by simp
  have hsnd : (pairs ++ [(x, y)]).map Prod.snd = pairs.map Prod.snd ++ [y] := by simp
  simp only [OnlineCovariance.update, hactive, Bool.true_eq_false, if_false, hcount, hmeanX, hmeanY,
    hstepX, hstepY]
  refine ⟨rfl, by simp, ?_, ?_, ?_, ?_, ?_⟩
  · rw [hfst, mean_concat]
  · rw [hsnd, mean_concat]
  · rw [coMoment_concat, hcXy, hdx]
    dsimp only
    linear_combination (pairs.length + 1) * meanStep (pairs.map Prod.fst) x * hdy
  · rw [hfst]
    exact hvarX.update x
  · rw [hsnd]
    exact hvarY.update y

theorem Batch.feed {s : OnlineCovariance} {pairs : List (Rat × Rat)} (h : s.Batch pairs)
    (f : Feed (Rat × Rat)) : (s.feed f).Batch (f.push pairs) := by
  cases f with
  | update pair => exact h.update pair.1 pair.2
  | reset =>
      exact ⟨h.active, rfl, mean_nil.symm, mean_nil.symm, rfl, h.varX.feed .reset,
        h.varY.feed .reset⟩

/-- The sample covariance of the pairs. -/
theorem Batch.covariance_eq {s : OnlineCovariance} {pairs : List (Rat × Rat)} (h : s.Batch pairs)
    (htwo : 2 ≤ pairs.length) : s.covariance = coMoment pairs / (pairs.length - 1 : Nat) := by
  rw [covariance, h.count, if_neg (Nat.not_lt.mpr htwo), h.cXy]

end OnlineCovariance

/-! ## Skewness -/

/-- `OnlineSkewness`. -/
structure OnlineSkewness where
  count : Nat
  mean : Rat
  m2 : Rat
  m3 : Rat
  isActive : Bool
  deriving Repr, DecidableEq

namespace OnlineSkewness

/-- `OnlineSkewness::new`. -/
def new : OnlineSkewness := ⟨0, 0, 0, 0, true⟩

/-- `update`; the third moment is updated from the old second one. -/
def update (s : OnlineSkewness) (value : Rat) : OnlineSkewness :=
  if s.isActive = false then s
  else
    let count := s.count
    let delta := value - s.mean
    let deltaN := delta / (count + 1 : Nat)
    { s with
      count := count + 1
      mean := s.mean + deltaN
      m3 := s.m3 + (delta * deltaN * deltaN * count * (count - 1) - 3 * deltaN * s.m2)
      m2 := s.m2 + delta * deltaN * count }

/-- `reset`. -/
def reset (s : OnlineSkewness) : OnlineSkewness :=
  { s with count := 0, mean := 0, m2 := 0, m3 := 0 }

/-- One call. -/
def feed (s : OnlineSkewness) : Feed Rat → OnlineSkewness
  | .update value => s.update value
  | .reset => s.reset

/-- **The tracker holds what a batch computation gives.** -/
structure Batch (s : OnlineSkewness) (values : List Rat) : Prop where
  active : s.isActive = true
  count : s.count = values.length
  mean : s.mean = CentralMoments.mean values
  m2 : s.m2 = central 2 values
  m3 : s.m3 = central 3 values

theorem batch_new : Batch new [] := ⟨rfl, rfl, mean_nil.symm, rfl, rfl⟩

theorem Batch.update {s : OnlineSkewness} {values : List Rat} (h : s.Batch values) (value : Rat) :
    (s.update value).Batch (values ++ [value]) := by
  obtain ⟨hactive, hcount, hmean, hm2, hm3⟩ := h
  have hdelta := sub_mean values value
  have hstep := sub_mean_div values value rfl
  simp only [OnlineSkewness.update, hactive, Bool.true_eq_false, if_false, hcount, hmean, hstep]
  refine ⟨rfl, by simp, (mean_concat values value).symm, ?_, ?_⟩
  · rw [central_two_concat, hm2, hdelta]
    ring
  · rw [central_three_concat, hm3, hm2, hdelta]
    ring

theorem Batch.feed {s : OnlineSkewness} {values : List Rat} (h : s.Batch values) (f : Feed Rat) :
    (s.feed f).Batch (f.push values) := by
  cases f with
  | update value => exact h.update value
  | reset => exact ⟨h.active, rfl, mean_nil.symm, rfl, rfl⟩

end OnlineSkewness

/-- **Online moments are the batch moments**, after any calls. -/
theorem batch_after :
    (∀ feeds : List (Feed Rat),
      (feeds.foldl OnlineVariance.feed .new).Batch (sinceReset feeds)) ∧
    (∀ feeds : List (Feed (Rat × Rat)),
      (feeds.foldl OnlineCovariance.feed .new).Batch (sinceReset feeds)) ∧
    ∀ feeds : List (Feed Rat),
      (feeds.foldl OnlineSkewness.feed .new).Batch (sinceReset feeds) :=
  ⟨foldl_feed OnlineVariance.batch_new fun _ _ feed h => h.feed feed,
    foldl_feed OnlineCovariance.batch_new fun _ _ feed h => h.feed feed,
    foldl_feed OnlineSkewness.batch_new fun _ _ feed h => h.feed feed⟩

end StopTrading.Ml
