import StopTrading.Library.FloatOps
import StopTrading.Library.MachineInt
import Mathlib

/-!
# Execution plans

`ExecutionRouter::create_execution_plan` asks a maker-taker router for a mode and a queue jumper
whether to improve the best price, and combines the two.  The improvement is not one tick but
`spread_ticks`, the spread in ticks, and where that leaves no room the plan takes the best price of
the other side.  So a plan that jumps the queue is passive only if the spread is as many ticks wide
as a tick is (`SquareSpread`, `passive_iff`).

Floating point is uninterpreted.

### What is load-bearing

The two decisions are functions of floating-point numbers, and nothing about them is used.
`passive_iff` is about any two decisions, those of the router included, so what is proved does
not depend on rounding, thresholds or weights.

The rest is arithmetic of words.  `spread_ticks` is the spread divided by the tick size; the plan
then takes this *number of ticks* for a price difference.  It is one tick exactly if it equals
the tick size, and there is room for the improvement only if it is at least two, since the plan
asks for twice the improvement within the spread.
-/

namespace StopTrading.Execution.Routing

open MachineInt

universe u

variable {F : Type u}

/-- Floating point with the further functions that the two analyses call. -/
structure PlanOps (F : Type u) extends FloatOps F where
  abs : F → F
  min : F → F → F
  max : F → F → F
  negInfinity : F
  maxValue : F

namespace PlanOps

/-- `x.clamp(0.0, 1.0)`. -/
def clampUnit (ops : PlanOps F) (x : F) : F :=
  if ops.lt x (ops.lit 0) then ops.lit 0 else if ops.lt (ops.lit 1) x then ops.lit 1 else x

end PlanOps

/-- `Side`. -/
inductive Side where
  | buy | sell
  deriving Repr, DecidableEq

/-- `ExecutionMode`. -/
inductive ExecutionMode where
  | maker | taker | wait
  deriving Repr, DecidableEq

/-! ## Maker or taker -/

/-- `RoutingDecision`. -/
structure RoutingDecision (F : Type u) where
  mode : ExecutionMode
  makerEvBps : F
  takerEvBps : F
  driftBpsPerMs : F
  queuePosition : F
  makerFillProb : F
  limitOffsetTicks : Int
  confidence : F
  deriving Repr, DecidableEq

/-- `RoutingDecision::default`. -/
def RoutingDecision.default (ops : PlanOps F) : RoutingDecision F where
  mode := .wait
  makerEvBps := ops.lit 0
  takerEvBps := ops.lit 0
  driftBpsPerMs := ops.lit 0
  queuePosition := ops.lit (1 / 2)
  makerFillProb := ops.lit 0
  limitOffsetTicks := 0
  confidence := ops.lit 0

/-- `MakerTakerRouter`. -/
structure MakerTakerRouter (F : Type u) where
  makerRebateBps : F
  takerFeeBps : F
  tickSize : Nat
  minEdgeBps : F
  timeHorizonMs : Nat
  enabled : Bool
  deriving Repr, DecidableEq

namespace MakerTakerRouter

/-- `MakerTakerRouter::new`. -/
def new (ops : PlanOps F) (makerRebateBps takerFeeBps : F) (tickSize : Nat) :
    MakerTakerRouter F where
  makerRebateBps := makerRebateBps
  takerFeeBps := takerFeeBps
  tickSize := tickSize
  minEdgeBps := ops.lit (1 / 2)
  timeHorizonMs := 100
  enabled := true

/-- `calculate_maker_ev`. -/
def calculateMakerEv (ops : PlanOps F) (r : MakerTakerRouter F)
    (fillProb alphaBps queuePosition : F) : F :=
  if r.enabled = false then ops.negInfinity
  else
    let alphaCapture := ops.mul alphaBps (ops.sub (ops.lit 1) queuePosition)
    let baseEv := ops.mul fillProb (ops.add alphaCapture r.makerRebateBps)
    let opportunityCost := ops.mul
      (ops.mul (ops.sub (ops.lit 1) fillProb) (ops.abs alphaBps)) (ops.lit (1 / 2))
    ops.sub baseEv opportunityCost

/-- `calculate_taker_ev`. -/
def calculateTakerEv (ops : PlanOps F) (r : MakerTakerRouter F) (alphaBps slippageBps : F) : F :=
  if r.enabled = false then ops.negInfinity
  else ops.sub (ops.sub alphaBps r.takerFeeBps) slippageBps

/-- `estimate_fill_probability`. -/
def estimateFillProbability (ops : PlanOps F)
    (queueImbalance depletionRate ourQueuePosition : F) (timeHorizonMs : Nat) : F :=
  let positionFactor := ops.sub (ops.lit 1) ourQueuePosition
  let imbalanceFactor :=
    if ops.lt (ops.lit 0) queueImbalance then
      ops.add (ops.lit (1 / 2)) (ops.mul queueImbalance (ops.lit (1 / 2)))
    else ops.lit (1 / 2)
  let depletionFactor := ops.min
    (ops.div (ops.mul depletionRate (ops.ofU64 timeHorizonMs)) (ops.lit 1000)) (ops.lit 1)
  ops.clampUnit (ops.add
    (ops.add (ops.mul positionFactor (ops.lit (2 / 5)))
      (ops.mul imbalanceFactor (ops.lit (3 / 10))))
    (ops.mul depletionFactor (ops.lit (3 / 10))))

/-- `determine_limit_offset`; the branches of a strong drift and of none agree. -/
def determineLimitOffset (ops : PlanOps F) (driftBps : F) (side : Side)
    (currentSpreadTicks : Nat) : Int :=
  if currentSpreadTicks ≤ 1 then 0
  else
    let favorableDrift :=
      match side with
      | .buy => ops.lt driftBps (ops.lit 0)
      | .sell => ops.lt (ops.lit 0) driftBps
    if favorableDrift = true ∧ currentSpreadTicks ≥ 3 then 1
    else if ops.lt (ops.lit 5) (ops.abs driftBps) then 0
    else 0

/-- `decide`. -/
def decide (ops : PlanOps F) (r : MakerTakerRouter F) (side : Side)
    (alphaBps driftBpsPerMs queueImbalance depletionRate ourQueuePosition : F)
    (currentSpreadTicks : Nat) (slippageBps : F) : RoutingDecision F :=
  if r.enabled = false then .default ops
  else
    let driftAdjustment := ops.mul driftBpsPerMs (ops.ofU64 r.timeHorizonMs)
    let adjustedAlpha :=
      match side with
      | .buy => ops.sub alphaBps driftAdjustment
      | .sell => ops.add alphaBps driftAdjustment
    let fillProb :=
      estimateFillProbability ops queueImbalance depletionRate ourQueuePosition r.timeHorizonMs
    let makerEv := r.calculateMakerEv ops fillProb adjustedAlpha ourQueuePosition
    let takerEv := r.calculateTakerEv ops adjustedAlpha slippageBps
    let limitOffset := determineLimitOffset ops driftBpsPerMs side currentSpreadTicks
    let (mode, confidence) :=
      if ops.lt takerEv makerEv ∧ ops.lt r.minEdgeBps makerEv then
        (ExecutionMode.maker, ops.min
          (ops.div makerEv (ops.max (ops.abs (ops.sub makerEv takerEv)) (ops.lit 1))) (ops.lit 1))
      else if ops.lt makerEv takerEv ∧ ops.lt r.minEdgeBps takerEv then
        (.taker, ops.min
          (ops.div takerEv (ops.max (ops.abs (ops.sub takerEv makerEv)) (ops.lit 1))) (ops.lit 1))
      else if ops.lt (ops.neg r.minEdgeBps) (ops.max makerEv takerEv) then
        (.maker, ops.lit (3 / 10))
      else (.wait, ops.lit 0)
    { mode := mode
      makerEvBps := makerEv
      takerEvBps := takerEv
      driftBpsPerMs := driftBpsPerMs
      queuePosition := ourQueuePosition
      makerFillProb := fillProb
      limitOffsetTicks := limitOffset
      confidence := confidence }

end MakerTakerRouter

/-! ## Queue jumping -/

/-- `QueueJumpDecision`. -/
structure QueueJumpDecision (F : Type u) where
  shouldJump : Bool
  newPriceTicks : Int
  edgeGainedBps : F
  jumpCostBps : F
  netBenefitBps : F
  priorityGain : F
  confidence : F
  deriving Repr, DecidableEq

/-- `QueueJumpDecision::default`. -/
def QueueJumpDecision.default (ops : PlanOps F) : QueueJumpDecision F where
  shouldJump := false
  newPriceTicks := 0
  edgeGainedBps := ops.lit 0
  jumpCostBps := ops.lit 0
  netBenefitBps := ops.lit 0
  priorityGain := ops.lit 0
  confidence := ops.lit 0

/-- `QueueJumper`. -/
structure QueueJumper (F : Type u) where
  tickSize : Nat
  minEdgeThresholdBps : F
  maxJumpCostBps : F
  bestBid : Nat
  bestAsk : Nat
  ordersAhead : Nat
  enabled : Bool
  deriving Repr, DecidableEq

namespace QueueJumper

/-- `QueueJumper::new`. -/
def new (ops : PlanOps F) (tickSize : Nat) : QueueJumper F where
  tickSize := tickSize
  minEdgeThresholdBps := ops.lit (3 / 10)
  maxJumpCostBps := ops.lit (1 / 2)
  bestBid := 0
  bestAsk := 0
  ordersAhead := 0
  enabled := true

/-- `update_prices`. -/
def updatePrices (q : QueueJumper F) (bestBid bestAsk : Nat) : QueueJumper F :=
  { q with bestBid := bestBid, bestAsk := bestAsk }

/-- `calculate_jump_cost`. -/
def calculateJumpCost (ops : PlanOps F) (q : QueueJumper F) (side : Side) (makerRebateBps : F) :
    F :=
  let bestPrice :=
    match side with
    | .buy => q.bestAsk
    | .sell => q.bestBid
  if bestPrice = 0 then ops.maxValue
  else
    ops.add
      (ops.mul (ops.div (ops.ofU64 q.tickSize) (ops.ofU64 bestPrice)) (ops.lit 10000))
      makerRebateBps

/-- `estimate_edge_gained`. -/
def estimateEdgeGained (ops : PlanOps F)
    (currentPosition newPosition alphaBps fillProbabilitySlope : F) : F :=
  ops.mul (ops.mul (ops.sub currentPosition newPosition) fillProbabilitySlope) alphaBps

/-- `estimate_new_position`. -/
def estimateNewPosition (ops : PlanOps F) (currentOrdersAhead : Nat) (jumpTicks : Int) : F :=
  if jumpTicks ≤ 0 then
    ops.min (ops.div (ops.ofU64 currentOrdersAhead) (ops.lit 1000)) (ops.lit 1)
  else
    ops.min
      (ops.div (ops.mul (ops.ofU64 currentOrdersAhead) (ops.lit (3 / 10))) (ops.lit 1000))
      (ops.lit (1 / 2))

/-- `analyze_jump`. -/
def analyzeJump (ops : PlanOps F) (q : QueueJumper F) (side : Side)
    (alphaBps currentQueuePosition makerRebateBps fillProbabilitySlope timeUrgency : F) :
    QueueJumpDecision F :=
  if q.enabled = false then .default ops
  else
    let jumpTicks : Int := 1
    let newPosition := estimateNewPosition ops q.ordersAhead jumpTicks
    let jumpCost := q.calculateJumpCost ops side makerRebateBps
    let edgeGained :=
      estimateEdgeGained ops currentQueuePosition newPosition alphaBps fillProbabilitySlope
    let urgencyMultiplier := ops.add (ops.lit 1) (ops.mul timeUrgency (ops.lit (1 / 2)))
    let netBenefit := ops.sub (ops.mul edgeGained urgencyMultiplier) jumpCost
    let priorityGain := ops.max (ops.sub currentQueuePosition newPosition) (ops.lit 0)
    let shouldJump := ops.lt q.minEdgeThresholdBps netBenefit && ops.lt jumpCost q.maxJumpCostBps &&
      ops.lt (ops.lit (1 / 10)) priorityGain
    { shouldJump := shouldJump
      newPriceTicks := if shouldJump = true then jumpTicks else 0
      edgeGainedBps := edgeGained
      jumpCostBps := jumpCost
      netBenefitBps := netBenefit
      priorityGain := priorityGain
      confidence :=
        if shouldJump = true then
          ops.min (ops.div netBenefit q.minEdgeThresholdBps) (ops.lit 1)
        else
          ops.min (ops.div (ops.abs (ops.sub jumpCost netBenefit)) q.maxJumpCostBps) (ops.lit 1) }

/-- `spread_ticks`. -/
def spreadTicks (q : QueueJumper F) : Nat :=
  if q.bestBid > 0 ∧ q.bestAsk > 0 ∧ q.tickSize > 0 then
    u64 (q.bestAsk - q.bestBid) / q.tickSize
  else 0

end QueueJumper

/-! ## The plan -/

/-- `ExecutionPlan`. -/
structure ExecutionPlan (F : Type u) where
  mode : ExecutionMode
  limitPrice : Nat
  size : Nat
  side : Side
  expectedCostBps : F
  confidence : F
  useQueueJump : Bool
  timestampNs : Nat
  deriving Repr, DecidableEq

/-- `ExecutionPlan::default`. -/
def ExecutionPlan.default (ops : PlanOps F) : ExecutionPlan F :=
  ⟨.wait, 0, 0, .buy, ops.lit 0, ops.lit 0, false, 0⟩

/-- `ExecutionRouter`. -/
structure ExecutionRouter (F : Type u) where
  makerTakerRouter : MakerTakerRouter F
  queueJumper : QueueJumper F
  makerRebateBps : F
  takerFeeBps : F
  fillProbSlope : F
  enabled : Bool
  sequence : Nat
  deriving Repr, DecidableEq

/-- What a plan is asked for: the arguments of `create_execution_plan`. -/
structure PlanRequest (F : Type u) where
  side : Side
  size : Nat
  alphaBps : F
  driftBpsPerMs : F
  queueImbalance : F
  depletionRate : F
  currentQueuePosition : F
  timeUrgency : F
  bestBid : Nat
  bestAsk : Nat
  timestampNs : Nat
  deriving Repr, DecidableEq

namespace ExecutionRouter

/-- `ExecutionRouter::new`. -/
def new (ops : PlanOps F) (tickSize : Nat) (makerRebateBps takerFeeBps : F) :
    ExecutionRouter F where
  makerTakerRouter := .new ops makerRebateBps takerFeeBps tickSize
  queueJumper := .new ops tickSize
  makerRebateBps := makerRebateBps
  takerFeeBps := takerFeeBps
  fillProbSlope := ops.lit (1 / 2)
  enabled := true
  sequence := 0

/-- `estimate_slippage`. -/
def estimateSlippage (ops : PlanOps F) (size : Nat) (side : Side) (bestBid bestAsk : Nat) : F :=
  let referencePrice :=
    match side with
    | .buy => bestAsk
    | .sell => bestBid
  if referencePrice = 0 then ops.lit 1
  else
    ops.mul (ops.min (ops.div (ops.ofU64 size) (ops.lit 1000000)) (ops.lit 10)) (ops.lit (1 / 10))

/-- `combine_decisions`. -/
def combineDecisions (ops : PlanOps F) (r : ExecutionRouter F) (mt : RoutingDecision F)
    (jump : QueueJumpDecision F) (side : Side) (bestBid bestAsk : Nat) :
    ExecutionMode × Nat × Bool :=
  let tickSize := max r.queueJumper.spreadTicks 1
  match mt.mode with
  | .maker =>
      if jump.shouldJump = true ∧ ops.lt (ops.lit 0) jump.netBenefitBps = true then
        let newPrice :=
          match side with
          | .buy =>
              let spreadTicks := u64 (bestAsk - bestBid) / tickSize
              if spreadTicks ≥ 2 then (bestBid + tickSize) % 2 ^ 64 else bestAsk
          | .sell =>
              let spreadTicks := u64 (bestAsk - bestBid) / tickSize
              if spreadTicks ≥ 2 then bestAsk - tickSize else bestBid
        (.maker, newPrice, true)
      else
        let price :=
          match side with
          | .buy => bestBid
          | .sell => bestAsk
        (.maker, price, false)
  | .taker =>
      let price :=
        match side with
        | .buy => bestAsk
        | .sell => bestBid
      (.taker, price, false)
  | .wait => (.wait, 0, false)

/-- `update_prices`. -/
def updatePrices (r : ExecutionRouter F) (bestBid bestAsk : Nat) : ExecutionRouter F :=
  { r with queueJumper := r.queueJumper.updatePrices bestBid bestAsk }

/-- The part of `create_execution_plan` behind the two decisions. -/
def planFrom (ops : PlanOps F) (r : ExecutionRouter F) (q : PlanRequest F) (slippageBps : F)
    (mt : RoutingDecision F) (jump : QueueJumpDecision F) : ExecutionPlan F :=
  let (finalMode, limitPrice, useQueueJump) :=
    r.combineDecisions ops mt jump q.side q.bestBid q.bestAsk
  let expectedCost :=
    match finalMode with
    | .maker => ops.neg r.makerRebateBps
    | .taker => ops.add r.takerFeeBps slippageBps
    | .wait => ops.lit 0
  let confidence := ops.min
    (ops.max
      (ops.add (ops.mul mt.confidence (ops.lit (3 / 5)))
        (ops.mul jump.confidence (ops.lit (2 / 5))))
      (ops.lit 0))
    (ops.lit 1)
  { mode := finalMode
    limitPrice := limitPrice
    size := q.size
    side := q.side
    expectedCostBps := expectedCost
    confidence := confidence
    useQueueJump := useQueueJump
    timestampNs := q.timestampNs }

/-- The maker-taker decision for a request, once the prices are updated. -/
def makerTakerDecision (ops : PlanOps F) (r : ExecutionRouter F) (q : PlanRequest F) :
    RoutingDecision F :=
  -- what is called the tick size is the spread in ticks
  let tickSize := r.queueJumper.spreadTicks
  let spreadTicks := if tickSize > 0 then (q.bestAsk - q.bestBid) / tickSize else 2
  r.makerTakerRouter.decide ops q.side q.alphaBps q.driftBpsPerMs q.queueImbalance q.depletionRate
    q.currentQueuePosition spreadTicks (estimateSlippage ops q.size q.side q.bestBid q.bestAsk)

/-- The queue-jump decision for a request. -/
def queueJumpDecision (ops : PlanOps F) (r : ExecutionRouter F) (q : PlanRequest F) :
    QueueJumpDecision F :=
  r.queueJumper.analyzeJump ops q.side q.alphaBps q.currentQueuePosition r.makerRebateBps
    r.fillProbSlope q.timeUrgency

/-- **`create_execution_plan`**: the plan, and the router afterwards. -/
def createExecutionPlan (ops : PlanOps F) (r : ExecutionRouter F) (q : PlanRequest F) :
    ExecutionPlan F × ExecutionRouter F :=
  if r.enabled = false then (.default ops, r)
  else
    let r := r.updatePrices q.bestBid q.bestAsk
    (r.planFrom ops q (estimateSlippage ops q.size q.side q.bestBid q.bestAsk)
        (r.makerTakerDecision ops q) (r.queueJumpDecision ops q),
      { r with sequence := (r.sequence + 1) % 2 ^ 64 })

end ExecutionRouter

/-! ## Passive plans -/

/-- **A maker plan is passive**: it does not reach the best price of the other side, and where it
jumps the queue it improves the best price of its own side by one tick. -/
def ExecutionPlan.Passive (plan : ExecutionPlan F) (tickSize bestBid bestAsk : Nat) : Prop :=
  plan.mode = .maker →
    match plan.side with
    | .buy => plan.limitPrice < bestAsk ∧
        (plan.useQueueJump = true → plan.limitPrice = bestBid + tickSize)
    | .sell => bestBid < plan.limitPrice ∧
        (plan.useQueueJump = true → plan.limitPrice + tickSize = bestAsk)

/-- The two decisions make the plan jump the queue. -/
def Jumps (ops : PlanOps F) (mt : RoutingDecision F) (jump : QueueJumpDecision F) : Prop :=
  mt.mode = .maker ∧ jump.shouldJump = true ∧ ops.lt (ops.lit 0) jump.netBenefitBps = true

instance (ops : PlanOps F) (mt : RoutingDecision F) (jump : QueueJumpDecision F) :
    Decidable (Jumps ops mt jump) :=
  inferInstanceAs (Decidable (_ ∧ _))

/-- **The spread is as many ticks wide as a tick is**, more than one. -/
def SquareSpread (tickSize bestBid bestAsk : Nat) : Prop :=
  2 ≤ tickSize ∧ (bestAsk - bestBid) / tickSize = tickSize

instance (tickSize bestBid bestAsk : Nat) : Decidable (SquareSpread tickSize bestBid bestAsk) :=
  inferInstanceAs (Decidable (_ ∧ _))

/-! ### The improvement -/

/-- What is taken for the tick size is one, and there is room for it, only for such a spread. -/
theorem squareSpread_iff {tickSize bestBid bestAsk : Nat} (htick : 1 ≤ tickSize) :
    (2 ≤ (bestAsk - bestBid) / max ((bestAsk - bestBid) / tickSize) 1 ∧
        max ((bestAsk - bestBid) / tickSize) 1 = tickSize) ↔
      SquareSpread tickSize bestBid bestAsk := by
  unfold SquareSpread
  constructor
  · rintro ⟨hroom, htrue⟩
    rw [htrue] at hroom
    have htwo : 2 ≤ tickSize := by
      by_contra hone
      obtain rfl : tickSize = 1 := by omega
      rw [Nat.div_one] at htrue hroom
      omega
    exact ⟨htwo, by omega⟩
  · rintro ⟨htwo, hsquare⟩
    rw [hsquare, max_eq_left htick]
    exact ⟨by omega, rfl⟩

/-- An improvement with room for two of it stays inside of the spread. -/
theorem lt_of_two_le_div {improvement bestBid bestAsk : Nat} (hpos : 1 ≤ improvement)
    (hroom : 2 ≤ (bestAsk - bestBid) / improvement) : bestBid + improvement < bestAsk := by
  have htwice := (Nat.le_div_iff_mul_le hpos).mp hroom
  omega

namespace ExecutionRouter

variable {ops : PlanOps F} {r : ExecutionRouter F} {q : PlanRequest F}

/-- The spread in ticks, while prices are quoted. -/
theorem spreadTicks_updatePrices {bestBid bestAsk : Nat} (htick : 1 ≤ r.queueJumper.tickSize)
    (hbid : 0 < bestBid) (hspread : bestBid < bestAsk) (hword : bestAsk < 2 ^ 64) :
    (r.updatePrices bestBid bestAsk).queueJumper.spreadTicks =
      (bestAsk - bestBid) / r.queueJumper.tickSize := by
  have hsub : u64 ((bestAsk : Int) - bestBid) = bestAsk - bestBid := by
    rw [← Nat.cast_sub hspread.le]
    exact u64_natCast (by omega)
  have hknown : bestBid > 0 ∧ bestAsk > 0 ∧ r.queueJumper.tickSize > 0 := by omega
  simp only [updatePrices, QueueJumper.updatePrices, QueueJumper.spreadTicks, if_pos hknown, hsub]

/-- A plan that does not jump the queue joins it. -/
theorem passive_of_not_jumps {mt : RoutingDecision F} {jump : QueueJumpDecision F} {slippageBps : F}
    {tickSize : Nat} (hjumps : ¬ Jumps ops mt jump) (hspread : q.bestBid < q.bestAsk) :
    (r.planFrom ops q slippageBps mt jump).Passive tickSize q.bestBid q.bestAsk := by
  unfold ExecutionPlan.Passive planFrom combineDecisions
  cases hmode : mt.mode with
  | maker =>
      have hno : ¬ (jump.shouldJump = true ∧ ops.lt (ops.lit 0) jump.netBenefitBps = true) :=
        fun h => hjumps ⟨hmode, h⟩
      simp only [if_neg hno]
      intro _
      cases q.side with
      | buy | sell => exact ⟨hspread, nofun⟩
  | taker | wait => exact nofun

/-- **A plan that jumps the queue** is passive only for such a spread. -/
theorem passive_iff_of_jumps {mt : RoutingDecision F} {jump : QueueJumpDecision F}
    {slippageBps : F} (hjumps : Jumps ops mt jump) (htick : 1 ≤ r.queueJumper.tickSize)
    (hbid : 0 < q.bestBid) (hspread : q.bestBid < q.bestAsk) (hword : q.bestAsk < 2 ^ 64) :
    ((r.updatePrices q.bestBid q.bestAsk).planFrom ops q slippageBps mt jump).Passive
        r.queueJumper.tickSize q.bestBid q.bestAsk ↔
      SquareSpread r.queueJumper.tickSize q.bestBid q.bestAsk := by
  obtain ⟨hmode, hjump⟩ := hjumps
  have hsub : u64 ((q.bestAsk : Int) - q.bestBid) = q.bestAsk - q.bestBid := by
    rw [← Nat.cast_sub hspread.le]
    exact u64_natCast (by omega)
  rw [← squareSpread_iff htick]
  unfold ExecutionPlan.Passive planFrom combineDecisions
  simp only [hmode, if_pos hjump, spreadTicks_updatePrices htick hbid hspread hword, hsub,
    forall_const, ge_iff_le]
  have hpos : 1 ≤ max ((q.bestAsk - q.bestBid) / r.queueJumper.tickSize) 1 := le_max_right _ _
  generalize max ((q.bestAsk - q.bestBid) / r.queueJumper.tickSize) 1 = improvement at hpos ⊢
  by_cases hroom : 2 ≤ (q.bestAsk - q.bestBid) / improvement
  · have hinside := lt_of_two_le_div hpos hroom
    have hsum : (q.bestBid + improvement) % 2 ^ 64 = q.bestBid + improvement :=
      Nat.mod_eq_of_lt (hinside.trans hword)
    simp only [hroom, true_and, hsum]
    cases q.side with
    | buy =>
        simp only [if_true]
        exact ⟨fun h => by omega, fun h => ⟨hinside, by omega⟩⟩
    | sell =>
        simp only [if_true]
        exact ⟨fun h => by omega, fun h => ⟨by omega, by omega⟩⟩
  · -- without room the price is the best one of the other side
    simp only [hroom, false_and, iff_false]
    cases q.side with
    | buy | sell => exact fun h => absurd h.1 (Nat.lt_irrefl _)

/-- **Which plans are passive**, for any two decisions and for the ones that the router takes
itself: those that do not jump the queue, and those for a spread that is as many ticks wide as a
tick is. -/
theorem passive_iff (ops : PlanOps F) (r : ExecutionRouter F) (q : PlanRequest F)
    (htick : 1 ≤ r.queueJumper.tickSize) (hbid : 0 < q.bestBid) (hspread : q.bestBid < q.bestAsk)
    (hword : q.bestAsk < 2 ^ 64) :
    (∀ (mt : RoutingDecision F) (jump : QueueJumpDecision F) (slippageBps : F),
      ((r.updatePrices q.bestBid q.bestAsk).planFrom ops q slippageBps mt jump).Passive
          r.queueJumper.tickSize q.bestBid q.bestAsk ↔
        ¬ Jumps ops mt jump ∨ SquareSpread r.queueJumper.tickSize q.bestBid q.bestAsk) ∧
    ((r.createExecutionPlan ops q).1.Passive r.queueJumper.tickSize q.bestBid q.bestAsk ↔
      (r.enabled = true →
        ¬ Jumps ops ((r.updatePrices q.bestBid q.bestAsk).makerTakerDecision ops q)
            ((r.updatePrices q.bestBid q.bestAsk).queueJumpDecision ops q) ∨
          SquareSpread r.queueJumper.tickSize q.bestBid q.bestAsk)) := by
  have hany : ∀ (mt : RoutingDecision F) (jump : QueueJumpDecision F) (slippageBps : F),
      ((r.updatePrices q.bestBid q.bestAsk).planFrom ops q slippageBps mt jump).Passive
          r.queueJumper.tickSize q.bestBid q.bestAsk ↔
        ¬ Jumps ops mt jump ∨ SquareSpread r.queueJumper.tickSize q.bestBid q.bestAsk := by
    intro mt jump slippageBps
    by_cases hjumps : Jumps ops mt jump
    · rw [passive_iff_of_jumps hjumps htick hbid hspread hword]
      exact (or_iff_right (not_not.mpr hjumps)).symm
    · exact iff_of_true (passive_of_not_jumps hjumps hspread) (Or.inl hjumps)
  refine ⟨hany, ?_⟩
  rw [createExecutionPlan]
  split_ifs with henabled
  · refine iff_of_true nofun fun h => ?_
    rw [henabled] at h
    cases h
  · rw [← hany _ _ (estimateSlippage ops q.size q.side q.bestBid q.bestAsk)]
    exact ⟨fun h _ => h, fun h => h (Bool.eq_true_of_not_eq_false henabled)⟩

/-- Exact arithmetic. -/
def exact : PlanOps Rat :=
  { FloatOps.exact with
    abs := fun x => |x|
    min := fun x y => Min.min x y
    max := fun x y => Max.max x y
    negInfinity := -10 ^ 309
    maxValue := 10 ^ 308 }

/-- A buyer at the back of the queue who has a strong signal. -/
def patientBuyer (bestBid bestAsk : Nat) : PlanRequest Rat :=
  ⟨.buy, 1000, 5, 0, 1, 100, 7 / 10, 4 / 5, bestBid, bestAsk, 0⟩

/-- With a spread of one tick the passive plans are those that do not jump the queue. -/
theorem passive_iff_patientBuyer :
    (∀ (mt : RoutingDecision Rat) (jump : QueueJumpDecision Rat) (slippageBps : Rat),
      (((new exact 100 (3 / 10) 10).updatePrices 9900 10000).planFrom exact
          (patientBuyer 9900 10000) slippageBps mt jump).Passive 100 9900 10000 ↔
        ¬ Jumps exact mt jump ∨ SquareSpread 100 9900 10000) ∧
    (((new exact 100 (3 / 10) 10).createExecutionPlan exact (patientBuyer 9900 10000)).1.Passive
        100 9900 10000 ↔
      ((new exact 100 (3 / 10) 10).enabled = true →
        ¬ Jumps exact
            (((new exact 100 (3 / 10) 10).updatePrices 9900 10000).makerTakerDecision exact
              (patientBuyer 9900 10000))
            (((new exact 100 (3 / 10) 10).updatePrices 9900 10000).queueJumpDecision exact
              (patientBuyer 9900 10000)) ∨
          SquareSpread 100 9900 10000)) :=
  passive_iff exact (new exact 100 (3 / 10) 10) (patientBuyer 9900 10000) (by decide) (by decide)
    (by decide) (by decide)

/-- **A maker plan crosses a spread of a hundred ticks**: what it takes for a tick is all of it. -/
theorem not_forall_passive :
    ¬ ∀ (r : ExecutionRouter Rat) (q : PlanRequest Rat), 1 ≤ r.queueJumper.tickSize →
      0 < q.bestBid → q.bestBid < q.bestAsk → q.bestAsk < 2 ^ 64 →
      (r.createExecutionPlan exact q).1.Passive r.queueJumper.tickSize q.bestBid q.bestAsk := by
  intro h
  have hplan : ((new exact 1 (3 / 10) 10).createExecutionPlan exact
      (patientBuyer 1000000 1000100)).1.mode = .maker ∧
      ((new exact 1 (3 / 10) 10).createExecutionPlan exact
        (patientBuyer 1000000 1000100)).1.side = .buy ∧
      ((new exact 1 (3 / 10) 10).createExecutionPlan exact
        (patientBuyer 1000000 1000100)).1.limitPrice = 1000100 := by decide +kernel
  have hpassive := h (new exact 1 (3 / 10) 10) (patientBuyer 1000000 1000100) (by decide)
    (by decide) (by decide) (by decide) hplan.1
  rw [hplan.2.1, hplan.2.2] at hpassive
  exact absurd hpassive.1 (by decide)

end ExecutionRouter

end StopTrading.Execution.Routing
