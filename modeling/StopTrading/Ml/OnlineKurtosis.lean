import StopTrading.Library.Transition
import StopTrading.Ml.OnlineStats

/-!
# Online kurtosis

`OnlineKurtosis` updates the third and the fourth moment with the count before the update where
the formulas are those for the count after it.  The mean and the second moment are right
(`Partial.update`), the two others are off by what `m3_update` and `m4_update` say, unless the mean
does not move.

So the tracker holds the batch moments after every call exactly if all values since the last reset
are equal (`allStates_batch_iff`).  Arithmetic is exact and the count unbounded.

### What is load-bearing

The two errors have closed forms, `m3_update` and `m4_update`: the moments are off by multiples
of powers of `delta / n`, the distance by which the mean moves.  If the mean does not move they
vanish, and it does not move exactly if the new value is the mean.  For a tracker that has been
right so far the values are all equal, so the mean is their common value.

The converse needs that the two errors cannot cancel over several updates.  They need not be
followed that far: a state that is wrong once makes the run wrong, and the first value that
differs makes the state wrong at once.
-/

namespace StopTrading.Ml

open CentralMoments Transition

/-- `OnlineKurtosis`. -/
structure OnlineKurtosis where
  count : Nat
  mean : Rat
  m2 : Rat
  m3 : Rat
  m4 : Rat
  isActive : Bool
  deriving Repr, DecidableEq

/-- `n * m4 / m2^2`, the kurtosis of a sample. -/
def sampleKurtosis (values : List Rat) : Rat :=
  values.length * central 4 values / (central 2 values * central 2 values)

/-- Below this second moment the kurtosis is not computed. -/
def cutOff : Rat := 1 / 10 ^ 12

namespace OnlineKurtosis

/-- `OnlineKurtosis::new`. -/
def new : OnlineKurtosis := ⟨0, 0, 0, 0, 0, true⟩

/-- `update`. -/
def update (s : OnlineKurtosis) (value : Rat) : OnlineKurtosis :=
  if s.isActive = false then s
  else
    let count := s.count
    let delta := value - s.mean
    let deltaN := delta / (count + 1 : Nat)
    let deltaN2 := deltaN * deltaN
    let term1 := delta * deltaN * count
    { s with
      count := count + 1
      mean := s.mean + deltaN
      m4 := s.m4 + (term1 * deltaN2 * ((count : Rat) * count - 3 * count + 3) +
        6 * deltaN2 * s.m2 - 4 * deltaN * s.m3)
      m3 := s.m3 + (term1 * deltaN * (count - 2) - 3 * deltaN * s.m2)
      m2 := s.m2 + term1 }

/-- `kurtosis`. -/
def kurtosis (s : OnlineKurtosis) : Rat :=
  if s.count < 4 then 0
  else if s.m2 < cutOff then 0
  else s.count * s.m4 / (s.m2 * s.m2)

/-- `reset`. -/
def reset (s : OnlineKurtosis) : OnlineKurtosis :=
  { s with count := 0, mean := 0, m2 := 0, m3 := 0, m4 := 0 }

/-- One call. -/
def feed (s : OnlineKurtosis) : Feed Rat → OnlineKurtosis
  | .update value => s.update value
  | .reset => s.reset

/-- **The tracker holds what a batch computation gives.** -/
structure Batch (s : OnlineKurtosis) (values : List Rat) : Prop where
  /-- the count -/
  count : s.count = values.length
  /-- the mean -/
  mean : s.mean = CentralMoments.mean values
  /-- the second moment -/
  m2 : s.m2 = central 2 values
  /-- the third -/
  m3 : s.m3 = central 3 values
  /-- the fourth -/
  m4 : s.m4 = central 4 values
  /-- and the kurtosis, of values that are not all alike -/
  kurtosis : 4 ≤ values.length → cutOff ≤ central 2 values → s.kurtosis = sampleKurtosis values

/-- What the tracker holds of any values. -/
structure Partial (s : OnlineKurtosis) (values : List Rat) : Prop where
  /-- the tracker is on -/
  active : s.isActive = true
  /-- it counts -/
  count : s.count = values.length
  /-- its mean is right -/
  mean : s.mean = CentralMoments.mean values
  /-- and so is its second moment -/
  m2 : s.m2 = central 2 values

variable {s : OnlineKurtosis} {values : List Rat}

/-- The third and the fourth moment are what may be missing. -/
theorem Partial.batch_iff (h : s.Partial values) :
    s.Batch values ↔ s.m3 = central 3 values ∧ s.m4 = central 4 values := by
  constructor
  · exact fun hbatch => ⟨hbatch.m3, hbatch.m4⟩
  · rintro ⟨hm3, hm4⟩
    refine ⟨h.count, h.mean, h.m2, hm3, hm4, fun hfour hcut => ?_⟩
    rw [OnlineKurtosis.kurtosis, h.count, h.m2, hm4, if_neg (Nat.not_lt.mpr hfour),
      if_neg (not_lt.mpr hcut), sampleKurtosis]

/-- Nothing has come. -/
theorem partial_new : Partial new [] := ⟨rfl, rfl, mean_nil.symm, rfl⟩

/-- After a reset nothing has come, -/
theorem Partial.reset (h : s.Partial values) : s.reset.Partial [] :=
  ⟨h.active, rfl, mean_nil.symm, rfl⟩

/-- and a value more is one more in the mean and the second moment. -/
theorem Partial.update (h : s.Partial values) (value : Rat) :
    (s.update value).Partial (values ++ [value]) := by
  obtain ⟨hactive, hcount, hmean, hm2⟩ := h
  have hdelta := sub_mean values value
  have hstep := sub_mean_div values value rfl
  simp only [OnlineKurtosis.update, hactive, Bool.true_eq_false, if_false, hcount, hmean, hstep]
  refine ⟨rfl, by simp, (mean_concat values value).symm, ?_⟩
  rw [central_two_concat, hm2, hdelta]
  ring

/-- **What the third moment is off by** after an update. -/
theorem Partial.m3_update (h : s.Partial values) (value : Rat) :
    (s.update value).m3 - central 3 (values ++ [value]) =
      s.m3 - central 3 values -
        values.length * (values.length + 1) * meanStep values value ^ 3 := by
  obtain ⟨hactive, hcount, hmean, hm2⟩ := h
  have hdelta := sub_mean values value
  have hstep := sub_mean_div values value rfl
  simp only [OnlineKurtosis.update, hactive, Bool.true_eq_false, if_false, hcount, hmean, hstep]
  rw [central_three_concat, hm2, hdelta]
  ring

/-- **What the fourth moment is off by** after an update. -/
theorem Partial.m4_update (h : s.Partial values) (value : Rat) :
    (s.update value).m4 - central 4 (values ++ [value]) =
      s.m4 - central 4 values - 4 * meanStep values value * (s.m3 - central 3 values) -
        2 * values.length * (values.length + 1) * (values.length - 1) *
          meanStep values value ^ 4 := by
  obtain ⟨hactive, hcount, hmean, hm2⟩ := h
  have hdelta := sub_mean values value
  have hstep := sub_mean_div values value rfl
  simp only [OnlineKurtosis.update, hactive, Bool.true_eq_false, if_false, hcount, hmean, hstep]
  rw [central_four_concat, hm2, hdelta]
  ring

/-- **A tracker that is right stays right** just when the mean of equal values does not move. -/
theorem Partial.batch_update_iff (h : s.Partial values) (hbatch : s.Batch values)
    (hequal : ∀ u ∈ values, ∀ v ∈ values, u = v) (value : Rat) :
    (s.update value).Batch (values ++ [value]) ↔ ∀ u ∈ values, u = value := by
  have hm3 := h.m3_update value
  have hm4 := h.m4_update value
  rw [hbatch.m3, sub_self] at hm3 hm4
  rw [hbatch.m4, sub_self] at hm4
  rw [(h.update value).batch_iff, ← sub_eq_zero (a := (s.update value).m3),
    ← sub_eq_zero (a := (s.update value).m4), hm3, hm4,
    ← length_mul_meanStep_eq_zero_iff hequal value]
  constructor
  · rintro ⟨hzero, -⟩
    have hsucc : (values.length : Rat) + 1 ≠ 0 := Nat.cast_add_one_ne_zero values.length
    have hproduct : (values.length : Rat) * meanStep values value ^ 3 = 0 := by
      refine (mul_eq_zero.mp ?_).resolve_left hsucc
      linear_combination -hzero
    rcases mul_eq_zero.mp hproduct with hlength | hstep
    · rw [hlength, zero_mul]
    · rw [pow_eq_zero_iff three_ne_zero |>.mp hstep, mul_zero]
  · intro hstays
    constructor
    · linear_combination -(values.length + 1) * meanStep values value ^ 2 * hstays
    · linear_combination -2 * (values.length + 1) * (values.length - 1) *
        meanStep values value ^ 3 * hstays

end OnlineKurtosis

/-! ## Runs -/

/-- A tracker, and the values since the last reset. -/
structure Tracked where
  tracker : OnlineKurtosis
  values : List Rat
  deriving Repr, DecidableEq

namespace Tracked

open OnlineKurtosis

/-- A fresh tracker. -/
def start : Tracked := ⟨.new, []⟩

/-- One call. -/
def step (x : Tracked) (feed : Feed Rat) : Option Tracked :=
  some ⟨x.tracker.feed feed, feed.push x.values⟩

/-- **The tracker holds the moments** of the values since the last reset. -/
def Holds (x : Tracked) : Prop := x.tracker.Batch x.values

/-- The call is not with a value that differs from one since the last reset. -/
def Repeats (x : Tracked) (feed : Feed Rat) (_ : Tracked) : Prop :=
  match feed with
  | .update value => ∀ u ∈ x.values, u = value
  | .reset => True

instance (x : Tracked) (feed : Feed Rat) (x' : Tracked) : Decidable (Repeats x feed x') := by
  unfold Repeats
  split <;> infer_instance

/-- The tracker is right, and all values since the last reset are equal. -/
structure Inv (x : Tracked) : Prop where
  /-- what holds of any values -/
  tracked : x.tracker.Partial x.values
  /-- the tracker is right -/
  holds : x.Holds
  /-- and no value differs -/
  equal : ∀ u ∈ x.values, ∀ v ∈ x.values, u = v

/-- A tracker without values is right. -/
theorem inv_fresh {s : OnlineKurtosis} (h : s.Partial []) (hm3 : s.m3 = 0) (hm4 : s.m4 = 0) :
    Inv ⟨s, []⟩ :=
  ⟨h, h.batch_iff.mpr ⟨hm3, hm4⟩, fun _ hu => absurd hu List.not_mem_nil⟩

/-- An equal value keeps it so. -/
theorem inv_update {x : Tracked} (inv : Inv x) {value : Rat}
    (hrepeats : ∀ u ∈ x.values, u = value) :
    Inv ⟨x.tracker.update value, x.values ++ [value]⟩ where
  tracked := inv.tracked.update value
  holds := (inv.tracked.batch_update_iff inv.holds inv.equal value).mpr hrepeats
  equal := by
    have hall : ∀ u ∈ x.values ++ [value], u = value :=
      List.forall_mem_append.mpr ⟨hrepeats, List.forall_mem_singleton.mpr rfl⟩
    exact fun u hu v hv => (hall u hu).trans (hall v hv).symm

/-- **When the kurtosis tracker is right in every state**: when all values between two resets are
equal. -/
theorem allStates_batch_iff (feeds : List (Feed Rat)) :
    AllStates step Holds start feeds ↔ AllSteps step Repeats start feeds := by
  have hkeep : ∀ x feed x', Inv x → step x feed = some x' → Repeats x feed x' → Inv x' := by
    intro x feed x' inv hstep hrepeats
    obtain rfl := Option.some.inj hstep
    cases feed with
    | update value => exact inv_update inv hrepeats
    | reset => exact inv_fresh inv.tracked.reset rfl rfl
  have hexact : ∀ x feed x', Inv x → step x feed = some x' → Holds x' → Repeats x feed x' := by
    intro x feed x' inv hstep hholds
    obtain rfl := Option.some.inj hstep
    cases feed with
    | update value =>
        exact (inv.tracked.batch_update_iff inv.holds inv.equal value).mp hholds
    | reset => exact trivial
  exact (allSteps_iff_allStates (fun _ inv => inv.holds) hkeep hexact
    (inv_fresh partial_new rfl rfl) feeds).symm

/-- **Two different values are enough** to make the tracker wrong. -/
theorem not_forall_holds :
    ¬ ∀ feeds : List (Feed Rat), AllStates step Holds start feeds := by
  intro h
  have hends := (h [.update 0, .update 2]).of_run rfl
  exact absurd hends.m3 (by decide +kernel)

end Tracked

end StopTrading.Ml
