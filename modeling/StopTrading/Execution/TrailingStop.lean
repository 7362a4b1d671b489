import StopTrading.Library.Transition
import Mathlib.Algebra.Order.Ring.Nat
import Mathlib.Order.Lattice
import Mathlib.Tactic.Common

/-!
# The trailing stop

`TrailingStopEngine` keeps the best price a position has seen and a stop at a distance behind
it: a share of the price, or one that grows with the average true range if that is larger.
`update_price` lets a new best price pull the stop along, `update_atr` moves the stop when the
distance shrinks, and both leave a stop alone that would move back.

Three things break the ratchet, and nothing else does (`allSteps_ratchets_iff`).  An update of
the trailing distance stores the stop it computes in either direction.  An update of the price
that comes too soon after the last amendment does not look at the best price; since the time
of the last amendment starts at zero, that includes the first update of a young clock.  And a
short whose stop is zero never triggers.

Prices and distances are 64-bit words, times are nanoseconds, and a reading of the clock is an
input.

### What is load-bearing

Long and short are one proof.  `Ratcheted`, `Beyond` and `better` take the direction as an
argument, and each comparison of the source is translated into them once; behind those lemmas
nothing asks whether a position is long.

The invariant is that the stop is behind the best price, and that this is the best price there
was. The first survives everything, even an update of the distance, which may move the stop but
computes it from the best price.  The second is lost when a price that improves comes too soon.
So each clause of `Ratchets` is broken by one kind of call, and `Tight` has one condition for
each.

Stops are computed with saturation.  Zero is where a long stop ends that would be negative, which
is harmless; a short stop is at zero only if the best price is, and then the test for a stop
takes it for none.
-/

namespace StopTrading.Execution.TrailingStop

open Transition

/-- `TrailingStopEngine`. -/
structure TrailingStopEngine where
  bestPrice : Nat
  stopPrice : Nat
  trailingDistanceBps : Nat
  atrMultiplier : Nat
  currentAtr : Nat
  isLong : Bool
  triggered : Bool
  lastUpdateNs : Nat
  minUpdateIntervalNs : Nat
  triggeredPrice : Nat
  deriving Repr, DecidableEq

/-- The distance of the stop: computed in 128 bits and cut to 64.  The source cuts only the
first branch, which is the only type both can have; the square of the range that it computes
as well is not used. -/
def totalDistance (price trailingBps atrValue : Nat) : Nat :=
  let fixedDistance := price * trailingBps / 10000
  if atrValue > 0 then
    let atrDistance := atrValue * 2 / 1000
    max fixedDistance atrDistance % 2 ^ 64
  else fixedDistance % 2 ^ 64

/-- `calculate_stop_price`; both directions saturate. -/
def calculateStopPrice (price trailingBps atrValue : Nat) (isLong : Bool) : Nat :=
  let distance := totalDistance price trailingBps atrValue
  if isLong = true then price - distance else min (price + distance) (2 ^ 64 - 1)

namespace TrailingStopEngine

/-- `TrailingStopEngine::new`. -/
def new (initialPrice trailingDistanceBps atrMultiplier : Nat) (isLong : Bool)
    (minUpdateIntervalMs : Nat) : TrailingStopEngine where
  bestPrice := initialPrice
  stopPrice := calculateStopPrice initialPrice trailingDistanceBps 0 isLong
  trailingDistanceBps := trailingDistanceBps
  atrMultiplier := atrMultiplier
  currentAtr := 0
  isLong := isLong
  triggered := false
  lastUpdateNs := 0
  minUpdateIntervalNs := minUpdateIntervalMs * 1000000 % 2 ^ 64
  triggeredPrice := 0

/-- The stop has been reached; a short has no stop at zero. -/
def stopReached (e : TrailingStopEngine) (price : Nat) : Bool :=
  if e.isLong = true then decide (price ≤ e.stopPrice)
  else decide (price ≥ e.stopPrice) && decide (e.stopPrice > 0)

/-- `check_trigger`. -/
def checkTrigger (e : TrailingStopEngine) (currentPrice : Nat) : TrailingStopEngine :=
  if e.triggered = true then e
  else if e.stopReached currentPrice = true then
    { e with triggered := true, triggeredPrice := currentPrice }
  else e

/-- A price is better than the best one. -/
def improves (e : TrailingStopEngine) (price : Nat) : Bool :=
  if e.isLong = true then decide (price > e.bestPrice)
  else decide (price < e.bestPrice) && decide (price > 0)

/-- A stop is closer to the market than the one in force. -/
def tightens (e : TrailingStopEngine) (stop : Nat) : Bool :=
  if e.isLong = true then decide (stop > e.stopPrice)
  else decide (stop < e.stopPrice) && decide (stop > 0)

/-- The stop behind a price with the distance and the range in force. -/
def stopBehind (e : TrailingStopEngine) (price : Nat) : Nat :=
  calculateStopPrice price e.trailingDistanceBps e.currentAtr e.isLong

/-- It is too early for an amendment. -/
def gated (e : TrailingStopEngine) (nowNs : Nat) : Bool :=
  decide (nowNs - e.lastUpdateNs < e.minUpdateIntervalNs)

/-- `update_price` at a reading of the clock; whether the stop was adjusted is left out. -/
def updatePrice (e : TrailingStopEngine) (newPrice nowNs : Nat) : TrailingStopEngine :=
  if e.gated nowNs = true then e.checkTrigger newPrice
  else if e.improves newPrice = true then
    let newStop := e.stopBehind newPrice
    if e.tightens newStop = true then
      { e with bestPrice := newPrice, stopPrice := newStop, lastUpdateNs := nowNs }
    else ({ e with bestPrice := newPrice } : TrailingStopEngine).checkTrigger newPrice
  else e.checkTrigger newPrice

/-- `update_atr`, after the store of the range. -/
def moveStop (e : TrailingStopEngine) : TrailingStopEngine :=
  let newStop := e.stopBehind e.bestPrice
  if e.tightens newStop = true then { e with stopPrice := newStop } else e

/-- `update_atr`. -/
def updateAtr (e : TrailingStopEngine) (newAtr : Nat) : TrailingStopEngine :=
  ({ e with currentAtr := newAtr } : TrailingStopEngine).moveStop

/-- `update_trailing_distance`. -/
def updateTrailingDistance (e : TrailingStopEngine) (newDistanceBps : Nat) :
    TrailingStopEngine :=
  let e := { e with trailingDistanceBps := newDistanceBps }
  { e with stopPrice := e.stopBehind e.bestPrice }

/-- `reset`. -/
def reset (e : TrailingStopEngine) (newInitialPrice : Nat) : TrailingStopEngine :=
  { e with
    bestPrice := newInitialPrice
    stopPrice := e.stopBehind newInitialPrice
    triggered := false
    triggeredPrice := 0
    lastUpdateNs := 0 }

/-! ## The ratchet in one direction -/

/-- A stop has not moved away from the market. -/
def Ratcheted (isLong : Bool) (stop stop' : Nat) : Prop :=
  if isLong = true then stop ≤ stop' else stop' ≤ stop

instance (isLong : Bool) (stop stop' : Nat) : Decidable (Ratcheted isLong stop stop') :=
  inferInstanceAs (Decidable (if isLong = true then stop ≤ stop' else stop' ≤ stop))

/-- A price is at or beyond a stop: the market has moved against the position to the stop. -/
def Beyond (isLong : Bool) (price stop : Nat) : Prop := Ratcheted isLong price stop

instance (isLong : Bool) (price stop : Nat) : Decidable (Beyond isLong price stop) :=
  inferInstanceAs (Decidable (Ratcheted isLong price stop))

/-- The better of two prices. -/
def better (isLong : Bool) (price price' : Nat) : Nat :=
  if isLong = true then max price price' else min price price'

/-- The stop is behind the best price. -/
def Behind (e : TrailingStopEngine) : Prop := Ratcheted e.isLong e.stopPrice e.bestPrice

/-- Standing still is ratcheting, -/
theorem Ratcheted.refl (isLong : Bool) (stop : Nat) : Ratcheted isLong stop stop := by
  unfold Ratcheted
  split_ifs <;> exact le_rfl

/-- and so are two moves in turn. -/
theorem Ratcheted.trans {isLong : Bool} {a b c : Nat} (h : Ratcheted isLong a b)
    (h' : Ratcheted isLong b c) : Ratcheted isLong a c := by
  unfold Ratcheted at *
  split_ifs at * with hlong
  · exact h.trans h'
  · exact h'.trans h

/-- The better price is the one that the market has moved to, -/
theorem better_eq_right {isLong : Bool} {price price' : Nat} (h : Ratcheted isLong price price') :
    better isLong price price' = price' := by
  unfold Ratcheted at h
  unfold better
  split_ifs at * with hlong
  · exact max_eq_right h
  · exact min_eq_right h

/-- or the other one. -/
theorem better_eq_left {isLong : Bool} {price price' : Nat} (h : Ratcheted isLong price' price) :
    better isLong price price' = price := by
  unfold Ratcheted at h
  unfold better
  split_ifs at * with hlong
  · exact max_eq_left h
  · exact min_eq_left h

/-- A stop is behind the price it is computed from. -/
theorem calculateStopPrice_behind {price : Nat} (bound : price < 2 ^ 64)
    (trailingBps atrValue : Nat) (isLong : Bool) :
    Ratcheted isLong (calculateStopPrice price trailingBps atrValue isLong) price := by
  unfold Ratcheted calculateStopPrice
  cases isLong with
  | true => exact Nat.sub_le _ _
  | false => exact le_min (Nat.le_add_right _ _) (by omega)

/-- To tighten is to ratchet. -/
theorem tightens_ratcheted {e : TrailingStopEngine} {stop : Nat} (h : e.tightens stop = true) :
    Ratcheted e.isLong e.stopPrice stop := by
  unfold tightens at h
  unfold Ratcheted
  split_ifs at * with hlong
  · exact (of_decide_eq_true h).le
  · exact (of_decide_eq_true (Bool.and_eq_true _ _ ▸ h).1).le

/-- For a positive price to improve is not to fall back to the best price. -/
theorem improves_iff {e : TrailingStopEngine} {price : Nat} (positive : 0 < price) :
    e.improves price = true ↔ ¬ Ratcheted e.isLong price e.bestPrice := by
  unfold improves Ratcheted
  split_ifs with hlong
  · rw [decide_eq_true_iff]
    omega
  · rw [Bool.and_eq_true, decide_eq_true_iff, decide_eq_true_iff]
    omega

/-- A price that improves ratchets. -/
theorem improves_ratcheted {e : TrailingStopEngine} {price : Nat} (h : e.improves price = true) :
    Ratcheted e.isLong e.bestPrice price := by
  unfold improves at h
  unfold Ratcheted
  split_ifs at * with hlong
  · exact (of_decide_eq_true h).le
  · exact (of_decide_eq_true (Bool.and_eq_true _ _ ▸ h).1).le

/-- A stop that is reached has been met. -/
theorem beyond_of_stopReached {e : TrailingStopEngine} {price : Nat}
    (h : e.stopReached price = true) : Beyond e.isLong price e.stopPrice := by
  unfold stopReached at h
  unfold Beyond Ratcheted
  split_ifs at * with hlong
  · exact of_decide_eq_true h
  · exact of_decide_eq_true (Bool.and_eq_true _ _ ▸ h).1

/-- A distance is not larger than the one from the stop to the best price, or the stop is where
no distance can push it back. -/
def Fits (e : TrailingStopEngine) (distance : Nat) : Prop :=
  if e.isLong = true then distance ≤ e.bestPrice - e.stopPrice ∨ e.stopPrice = 0
  else distance ≤ e.stopPrice - e.bestPrice ∨ 2 ^ 64 - 1 ≤ e.stopPrice

instance (e : TrailingStopEngine) (distance : Nat) : Decidable (e.Fits distance) :=
  inferInstanceAs (Decidable (if e.isLong = true then _ ∨ _ else _ ∨ _))

/-- An update of the distance keeps the stop or moves it closer exactly when the new distance
fits behind the best price. -/
theorem updateTrailingDistance_ratcheted_iff {e : TrailingStopEngine} (behind : e.Behind)
    (newDistanceBps : Nat) :
    Ratcheted e.isLong e.stopPrice (e.updateTrailingDistance newDistanceBps).stopPrice ↔
      e.Fits (totalDistance e.bestPrice newDistanceBps e.currentAtr) := by
  unfold Behind at behind
  unfold updateTrailingDistance stopBehind calculateStopPrice Fits
  unfold Ratcheted at *
  dsimp only
  split_ifs at * with hlong
  · omega
  · rw [min_le_iff]
    omega

/-- The stop of a short is zero, and a trigger is still to come. -/
def Stopless (e : TrailingStopEngine) : Prop :=
  e.isLong = false ∧ e.stopPrice = 0 ∧ e.triggered = false

instance (e : TrailingStopEngine) : Decidable e.Stopless := inferInstanceAs (Decidable (_ ∧ _))

/-- An engine is another one whose trigger was checked at a price. -/
structure Checked (e : TrailingStopEngine) (price : Nat) (e' : TrailingStopEngine) : Prop where
  /-- the best price stays -/
  bestPrice : e'.bestPrice = e.bestPrice
  /-- and the stop -/
  stopPrice : e'.stopPrice = e.stopPrice
  /-- and the direction -/
  isLong : e'.isLong = e.isLong
  /-- and the trigger is set if the stop is reached -/
  triggered : e'.triggered = true ↔ e.triggered = true ∨ e.stopReached price = true

/-- Checking the trigger changes the trigger only, -/
theorem checkTrigger_spec (e : TrailingStopEngine) (price : Nat) :
    e.Checked price (e.checkTrigger price) := by
  unfold checkTrigger
  split_ifs with htriggered hreached
  · exact ⟨rfl, rfl, rfl, iff_of_true htriggered (Or.inl htriggered)⟩
  · exact ⟨rfl, rfl, rfl, iff_of_true rfl (Or.inr hreached)⟩
  · exact ⟨rfl, rfl, rfl, iff_of_false htriggered fun h => h.elim htriggered hreached⟩

/-- so that the stop stays behind the best price, -/
theorem Checked.behind {e e' : TrailingStopEngine} {price : Nat} (h : e.Checked price e')
    (behind : e.Behind) : e'.Behind := by
  unfold Behind
  rw [h.isLong, h.stopPrice, h.bestPrice]
  exact behind

/-- where it was. -/
theorem Checked.ratcheted {e e' : TrailingStopEngine} {price : Nat} (h : e.Checked price e') :
    Ratcheted e.isLong e.stopPrice e'.stopPrice :=
  h.stopPrice ▸ Ratcheted.refl e.isLong e.stopPrice

/-- The trigger is right unless a short has its stop at zero. -/
theorem stopReached_iff (e : TrailingStopEngine) (price : Nat) :
    ((e.triggered = true ∨ e.stopReached price = true) ↔
      (e.triggered = true ∨ Beyond e.isLong price e.stopPrice)) ↔ ¬ e.Stopless := by
  unfold stopReached Beyond Ratcheted Stopless
  cases e.isLong with
  | true => simp
  | false =>
      cases e.triggered with
      | true => simp
      | false => simp; omega

/-- **What an update of the price does**, in the invariant: the stop stays behind the best
price and does not move away, and the trigger is set if the stop is reached. -/
theorem updatePrice_spec {e : TrailingStopEngine} (behind : e.Behind) {newPrice : Nat}
    (positive : 0 < newPrice) (bound : newPrice < 2 ^ 64) (nowNs : Nat) :
    (e.updatePrice newPrice nowNs).Behind ∧
      Ratcheted e.isLong e.stopPrice (e.updatePrice newPrice nowNs).stopPrice ∧
      (e.updatePrice newPrice nowNs).bestPrice =
        (if e.gated nowNs = false ∧ e.improves newPrice = true then newPrice else e.bestPrice) ∧
      ((e.updatePrice newPrice nowNs).triggered = true ↔
        e.triggered = true ∨ e.stopReached newPrice = true) := by
  have hcheck := e.checkTrigger_spec newPrice
  unfold updatePrice
  by_cases hgated : e.gated nowNs = true
  · -- too early: the trigger is looked at, the best price is not
    have hkept : ¬ (e.gated nowNs = false ∧ e.improves newPrice = true) :=
      fun h => Bool.eq_false_iff.mp h.1 hgated
    rw [if_pos hgated, if_neg hkept]
    exact ⟨hcheck.behind behind, hcheck.ratcheted, hcheck.bestPrice, hcheck.triggered⟩
  rw [if_neg hgated]
  by_cases himproves : e.improves newPrice = true
  · have hmoved : e.gated nowNs = false ∧ e.improves newPrice = true :=
      ⟨Bool.eq_false_iff.mpr hgated, himproves⟩
    rw [if_pos himproves, if_pos hmoved]
    by_cases htightens : e.tightens (e.stopBehind newPrice) = true
    · -- the market runs away from the stop, so the call need not look at it
      have hfar : ¬ e.stopReached newPrice = true := fun hreached =>
        (improves_iff positive).mp himproves ((beyond_of_stopReached hreached).trans behind)
      dsimp only
      rw [if_pos htightens]
      exact ⟨calculateStopPrice_behind bound _ _ _, tightens_ratcheted htightens, rfl,
        Or.inl, fun h => h.resolve_right hfar⟩
    · -- a better price whose stop would not be closer, as after a change of the range
      have hcheck := checkTrigger_spec { e with bestPrice := newPrice } newPrice
      dsimp only
      rw [if_neg htightens]
      exact ⟨hcheck.behind (behind.trans (improves_ratcheted himproves)), hcheck.ratcheted,
        hcheck.bestPrice, hcheck.triggered⟩
  · have hkept : ¬ (e.gated nowNs = false ∧ e.improves newPrice = true) := fun h => himproves h.2
    rw [if_neg himproves, if_neg hkept]
    exact ⟨hcheck.behind behind, hcheck.ratcheted, hcheck.bestPrice, hcheck.triggered⟩

/-- The best price is the better one unless a price that improves comes too soon. -/
theorem bestPrice_iff {e : TrailingStopEngine} {newPrice : Nat} (positive : 0 < newPrice)
    (nowNs : Nat) :
    (if e.gated nowNs = false ∧ e.improves newPrice = true then newPrice else e.bestPrice) =
        better e.isLong e.bestPrice newPrice ↔
      (e.gated nowNs = true → e.improves newPrice = false) := by
  cases himproves : e.improves newPrice with
  | true =>
      rw [better_eq_right (improves_ratcheted himproves)]
      cases e.gated nowNs with
      | true =>
          rw [if_neg fun h => nomatch h.1]
          -- the better price is dropped, and the best one is the worse
          have hne : e.bestPrice ≠ newPrice := fun h =>
            (improves_iff positive).mp himproves (h ▸ Ratcheted.refl _ _)
          exact iff_of_false hne fun h => nomatch h rfl
      | false => exact iff_of_true (if_pos ⟨rfl, rfl⟩) fun h => nomatch h
  | false =>
      have hback : Ratcheted e.isLong newPrice e.bestPrice :=
        not_not.mp fun h => Bool.eq_false_iff.mp himproves ((improves_iff positive).mpr h)
      rw [better_eq_left hback, if_neg fun h => nomatch h.2]
      exact iff_of_true rfl fun _ => rfl

/-- What an update of the range does: the best price and the trigger stay, and the stop stays
or moves closer. -/
theorem updateAtr_spec {e : TrailingStopEngine} (behind : e.Behind) (bound : e.bestPrice < 2 ^ 64)
    (newAtr : Nat) :
    (e.updateAtr newAtr).Behind ∧ (e.updateAtr newAtr).bestPrice = e.bestPrice ∧
      Ratcheted e.isLong e.stopPrice (e.updateAtr newAtr).stopPrice ∧
      (e.updateAtr newAtr).triggered = e.triggered := by
  unfold updateAtr moveStop
  dsimp only
  split_ifs with htightens
  · exact ⟨calculateStopPrice_behind bound _ _ _, rfl, tightens_ratcheted htightens, rfl⟩
  · exact ⟨behind, rfl, Ratcheted.refl _ _, rfl⟩

end TrailingStopEngine

/-! ## Runs -/

open TrailingStopEngine

/-- An engine and the best of its initial price and the prices passed to it since. -/
structure Trail where
  engine : TrailingStopEngine
  extreme : Nat
  deriving Repr, DecidableEq

/-- A call of the engine. -/
inductive Call where
  | updatePrice (newPrice nowNs : Nat)
  | updateAtr (newAtr : Nat)
  | updateTrailingDistance (newDistanceBps : Nat)
  | reset (newInitialPrice : Nat)
  deriving Repr, DecidableEq

namespace Trail

/-- A new engine. -/
def start (initialPrice trailingDistanceBps atrMultiplier : Nat) (isLong : Bool)
    (minUpdateIntervalMs : Nat) : Trail :=
  ⟨.new initialPrice trailingDistanceBps atrMultiplier isLong minUpdateIntervalMs, initialPrice⟩

/-- One call.  A reset begins a new series of prices. -/
def step (t : Trail) : Call → Option Trail
  | .updatePrice newPrice nowNs =>
      some ⟨t.engine.updatePrice newPrice nowNs, better t.engine.isLong t.extreme newPrice⟩
  | .updateAtr newAtr => some ⟨t.engine.updateAtr newAtr, t.extreme⟩
  | .updateTrailingDistance newDistanceBps =>
      some ⟨t.engine.updateTrailingDistance newDistanceBps, t.extreme⟩
  | .reset newInitialPrice => some ⟨t.engine.reset newInitialPrice, newInitialPrice⟩

/-- The readings of the clock in the updates of the price come at least an interval apart. -/
def Spaced (interval : Nat) (calls : List Call) : Prop :=
  (calls.filterMap fun
    | .updatePrice _ nowNs => some nowNs
    | _ => none).IsChain fun nowNs nowNs' => nowNs + interval ≤ nowNs'

instance (interval : Nat) (calls : List Call) : Decidable (Spaced interval calls) :=
  inferInstanceAs (Decidable (List.IsChain _ _))

/-- Prices are 64-bit words, and those of the market positive. -/
def Valid (_ : Trail) : Call → Trail → Prop
  | .updatePrice newPrice _, _ => 0 < newPrice ∧ newPrice < 2 ^ 64
  | .reset newInitialPrice, _ => newInitialPrice < 2 ^ 64
  | .updateAtr _, _ | .updateTrailingDistance _, _ => True

instance (t : Trail) : ∀ (c : Call) (t' : Trail), Decidable (Valid t c t')
  | .updatePrice _ _, _ => inferInstanceAs (Decidable (_ ∧ _))
  | .reset _, _ => inferInstanceAs (Decidable (_ < _))
  | .updateAtr _, _ | .updateTrailingDistance _, _ => inferInstanceAs (Decidable True)

/-- **The stop ratchets with the market.**  Between resets the stop does not move away from the
market, the best price is the best there was, and the trigger is set by the first price at or
beyond the stop that is in force when it comes. -/
def Ratchets (t : Trail) : Call → Trail → Prop
  | .updatePrice newPrice _, t' =>
      Ratcheted t.engine.isLong t.engine.stopPrice t'.engine.stopPrice ∧
        t'.engine.bestPrice = t'.extreme ∧
        (t'.engine.triggered = true ↔
          t.engine.triggered = true ∨ Beyond t.engine.isLong newPrice t.engine.stopPrice)
  | .updateAtr _, t' | .updateTrailingDistance _, t' =>
      Ratcheted t.engine.isLong t.engine.stopPrice t'.engine.stopPrice ∧
        t'.engine.triggered = t.engine.triggered
  | .reset _, t' => t'.engine.triggered = false

instance (t : Trail) : ∀ (c : Call) (t' : Trail), Decidable (Ratchets t c t')
  | .updatePrice _ _, _ => inferInstanceAs (Decidable (_ ∧ _))
  | .updateAtr _, _ | .updateTrailingDistance _, _ => inferInstanceAs (Decidable (_ ∧ _))
  | .reset _, _ => inferInstanceAs (Decidable (_ = _))

/-- **What keeps the ratchet**: a price that improves does not come too soon after the last
amendment, a short does not wait for a stop at zero, and a new distance fits between the stop
and the best price. -/
def Tight (t : Trail) : Call → Trail → Prop
  | .updatePrice newPrice nowNs, _ =>
      (t.engine.gated nowNs = true → t.engine.improves newPrice = false) ∧ ¬ t.engine.Stopless
  | .updateTrailingDistance newDistanceBps, _ =>
      t.engine.Fits (totalDistance t.engine.bestPrice newDistanceBps t.engine.currentAtr)
  | .updateAtr _, _ | .reset _, _ => True

instance (t : Trail) : ∀ (c : Call) (t' : Trail), Decidable (Tight t c t')
  | .updatePrice _ _, _ => inferInstanceAs (Decidable (_ ∧ _))
  | .updateTrailingDistance _, _ => inferInstanceAs (Decidable (Fits _ _))
  | .updateAtr _, _ | .reset _, _ => inferInstanceAs (Decidable True)

/-- The stop is behind the best price, which is the best there was. -/
structure Inv (t : Trail) : Prop where
  /-- the stop is behind the best price -/
  behind : t.engine.Behind
  /-- which is the best there was -/
  best : t.engine.bestPrice = t.extreme
  /-- and a word -/
  bound : t.engine.bestPrice < 2 ^ 64

/-- The first stop is behind the first price. -/
theorem inv_start {initialPrice : Nat} (bound : initialPrice < 2 ^ 64)
    (trailingDistanceBps atrMultiplier : Nat) (isLong : Bool) (minUpdateIntervalMs : Nat) :
    Inv (start initialPrice trailingDistanceBps atrMultiplier isLong minUpdateIntervalMs) :=
  ⟨calculateStopPrice_behind bound trailingDistanceBps 0 isLong, rfl, bound⟩

/-- A step ratchets exactly when it is tight. -/
theorem ratchets_iff {t t' : Trail} {c : Call} (inv : Inv t) (hstep : step t c = some t')
    (valid : Valid t c t') : Ratchets t c t' ↔ Tight t c t' := by
  cases c with
  | updatePrice newPrice nowNs =>
      obtain rfl := Option.some.inj hstep
      obtain ⟨_, hratcheted, hbest, htriggered⟩ :=
        updatePrice_spec inv.behind valid.1 valid.2 nowNs
      unfold Ratchets Tight
      dsimp only
      rw [hbest, htriggered, ← inv.best, bestPrice_iff valid.1, stopReached_iff]
      exact and_iff_right hratcheted
  | updateAtr newAtr =>
      obtain rfl := Option.some.inj hstep
      obtain ⟨_, _, hratcheted, htriggered⟩ := updateAtr_spec inv.behind inv.bound newAtr
      exact iff_of_true ⟨hratcheted, htriggered⟩ trivial
  | updateTrailingDistance newDistanceBps =>
      obtain rfl := Option.some.inj hstep
      exact (and_iff_left rfl).trans
        (updateTrailingDistance_ratcheted_iff inv.behind newDistanceBps)
  | reset newInitialPrice =>
      obtain rfl := Option.some.inj hstep
      exact iff_of_true rfl trivial

/-- A call that ratchets keeps the stop behind the best price there was. -/
theorem inv_step {t t' : Trail} {c : Call} (inv : Inv t) (hstep : step t c = some t')
    (valid : Valid t c t') (good : Ratchets t c t') : Inv t' := by
  cases c with
  | updatePrice newPrice nowNs =>
      have hbest := good.2.1
      obtain rfl := Option.some.inj hstep
      obtain ⟨hbehind, _, hprice, _⟩ := updatePrice_spec inv.behind valid.1 valid.2 nowNs
      refine ⟨hbehind, hbest, ?_⟩
      rw [hprice]
      split_ifs
      · exact valid.2
      · exact inv.bound
  | updateAtr newAtr =>
      obtain rfl := Option.some.inj hstep
      obtain ⟨hbehind, hprice, _, _⟩ := updateAtr_spec inv.behind inv.bound newAtr
      exact ⟨hbehind, hprice.trans inv.best, hprice ▸ inv.bound⟩
  | updateTrailingDistance newDistanceBps =>
      obtain rfl := Option.some.inj hstep
      exact ⟨calculateStopPrice_behind inv.bound _ _ _, inv.best, inv.bound⟩
  | reset newInitialPrice =>
      obtain rfl := Option.some.inj hstep
      exact ⟨calculateStopPrice_behind valid _ _ _, rfl, valid⟩

/-- **The stop ratchets in exactly the tight runs.** -/
theorem allSteps_ratchets_iff (initialPrice trailingDistanceBps atrMultiplier : Nat)
    (isLong : Bool) (minUpdateIntervalMs : Nat) (bound : initialPrice < 2 ^ 64)
    (calls : List Call)
    (valid : AllSteps step Valid
      (start initialPrice trailingDistanceBps atrMultiplier isLong minUpdateIntervalMs) calls) :
    AllSteps step Ratchets
        (start initialPrice trailingDistanceBps atrMultiplier isLong minUpdateIntervalMs) calls ↔
      AllSteps step Tight
        (start initialPrice trailingDistanceBps atrMultiplier isLong minUpdateIntervalMs)
        calls :=
  allSteps_iff_of_step_iff
    (fun _ _ _ (inv : Inv _) hstep valid good => inv_step inv hstep valid good)
    (fun _ _ _ inv hstep valid => ratchets_iff inv hstep valid) calls
    (inv_start bound trailingDistanceBps atrMultiplier isLong minUpdateIntervalMs) valid

/-- A short that is pulled along, and then waits at a distance that fits. -/
theorem allSteps_ratchets_iff_short :
    AllSteps step Ratchets (start 50000000 50 2000 false 100)
        [.updatePrice 49000000 100000000, .updateAtr 200000000, .updatePrice 48000000 200000000] ↔
      AllSteps step Tight (start 50000000 50 2000 false 100)
        [.updatePrice 49000000 100000000, .updateAtr 200000000, .updatePrice 48000000 200000000] :=
  allSteps_ratchets_iff 50000000 50 2000 false 100 (by decide) _ (by decide)

/-- Spacing the updates does not help: the first comes when the clock is young. -/
theorem not_forall_ratchets :
    ¬ ∀ calls, AllSteps step Valid (start 50000000 50 2000 true 100) calls →
      Spaced (start 50000000 50 2000 true 100).engine.minUpdateIntervalNs calls →
      AllSteps step Ratchets (start 50000000 50 2000 true 100) calls := fun h =>
  absurd (h [.updatePrice 51000000 0] (by decide) (by decide)) (by decide)

end Trail

end StopTrading.Execution.TrailingStop
