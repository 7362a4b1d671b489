import Mathlib.Algebra.Order.Field.Rat
import Mathlib.Data.List.AList
import Mathlib.Data.Rat.Floor
import Mathlib.Tactic.Common
import StopTrading.Library.MachineInt

/-!
# Post-only orders

`PostOnlyManager` caches the last quotes that were positive and not crossed.
`submit_post_only` refuses while the circuit breaker is on, when the quotes are too old, and
when the spread is below the minimum.  A price that would cross is moved to one tick inside
the spread if that changes it by no more than a share of it, and refused otherwise.

What a submission promises (`Sound`) is that an accepted price stays on its side of the spread,
is moved exactly when the intended one would cross and by no more than the allowed share, and that
"too tight" means what it says.  `submitPostOnly_sound_iff` says for every configuration, history
of updates and clock when all submissions at a price keep the promise.

### Where it breaks

The cache starts with zeros, and so does the time of its last update.  `would_cross` and
`current_spread_bps` take a zero for a missing quote and let everything pass, so the one thing
that can refuse an order before the first quotes is the test of freshness.  That test compares
the clock with the zero timestamp: a staleness bound longer than the time since the epoch makes
data that never came fresh, and the order goes out without a spread to be inside of
(`not_forall_submitPostOnly_sound`).

The second defect is the product `spread * 10000` in 64 bits.  It wraps for a spread of at least
2 ^ 64 / 10000, and then a wide spread can count as a tight one.  A wrapped product is never
larger than the true one, so the error goes in that direction only (`SpreadHeld`).

Prices are signed 64-bit words; the share is an exact rational, and so is the adjustment it is
compared with.  Readings of the clock are inputs.
-/

namespace StopTrading.Execution.PostOnly

open MachineInt

/-- `Side`. -/
inductive Side where
  | buy | sell
  deriving Repr, DecidableEq

/-- `OrderStatus`. -/
inductive OrderStatus where
  | pending | submitted | liveOnBook | cancelled | rejected | executed
  deriving Repr, DecidableEq

/-- `ModificationReason`. -/
inductive ModificationReason where
  | spreadAvoidance | volatilityAdjustment | queuePriority | tickSizeAdjustment
  deriving Repr, DecidableEq

/-- `PostOnlyOrder`. -/
structure PostOnlyOrder where
  orderId : String
  symbol : String
  side : Side
  intendedPrice : Int
  submittedPrice : Int
  quantity : Int
  bestBid : Int
  bestAsk : Int
  priceModified : Bool
  modificationReason : Option ModificationReason
  submittedAt : Nat
  status : OrderStatus
  deriving Repr, DecidableEq

/-- `PostOnlyConfig`, as far as a submission reads it. -/
structure PostOnlyConfig where
  minSpreadBps : Nat
  maxPriceAdjustmentPct : Rat
  tickSize : Int
  spreadStalenessMs : Nat
  deriving Repr, DecidableEq

/-- `PostOnlyConfig::default`. -/
def PostOnlyConfig.default : PostOnlyConfig where
  minSpreadBps := 5
  maxPriceAdjustmentPct := 1 / 1000
  tickSize := 1
  spreadStalenessMs := 100

/-- `PostOnlyStats`, as far as a submission writes it. -/
structure PostOnlyStats where
  totalOrdersSubmitted : Nat
  ordersPriceAdjusted : Nat
  spreadViolationsPrevented : Nat
  deriving Repr, DecidableEq

/-- `PostOnlyManager`. -/
structure PostOnlyManager where
  orders : AList fun _ : String => PostOnlyOrder
  bestBid : Int
  bestAsk : Int
  spreadLastUpdated : Nat
  spreadStalenessNs : Nat
  stats : PostOnlyStats
  config : PostOnlyConfig
  circuitBreaker : Bool

/-- `PostOnlyValidationResult`. -/
inductive PostOnlyValidationResult where
  | valid
  | requiresAdjustment (originalPrice adjustedPrice : Int) (reason : ModificationReason)
  | circuitBreakerActive
  | staleSpreadData
  | spreadTooTight (spread : Nat)
  | adjustmentExceedsLimit (pct : Rat)
  deriving Repr, DecidableEq

/-- `PostOnlyError`. -/
inductive PostOnlyError where
  | circuitBreakerActive
  | staleMarketData
  | spreadTooTight (spread : Nat)
  | priceAdjustmentTooLarge (pct : Rat)
  deriving Repr, DecidableEq

namespace PostOnlyManager

/-- `PostOnlyManager::new`. -/
def new (config : PostOnlyConfig) : PostOnlyManager where
  orders := ∅
  bestBid := 0
  bestAsk := 0
  spreadLastUpdated := 0
  spreadStalenessNs := config.spreadStalenessMs * 1000000 % 2 ^ 64
  stats := ⟨0, 0, 0⟩
  config := config
  circuitBreaker := false

/-- `update_market_data` at a reading of the clock. -/
def updateMarketData (m : PostOnlyManager) (bestBid bestAsk : Int) (now : Nat) :
    PostOnlyManager :=
  if bestBid > 0 ∧ bestAsk > 0 ∧ bestBid < bestAsk then
    { m with bestBid := bestBid, bestAsk := bestAsk, spreadLastUpdated := now }
  else m

/-- `is_spread_data_fresh` at a reading of the clock; the subtraction saturates. -/
def isSpreadDataFresh (m : PostOnlyManager) (now : Nat) : Bool :=
  now - m.spreadLastUpdated < m.spreadStalenessNs

/-- `current_spread_bps`. -/
def currentSpreadBps (m : PostOnlyManager) : Option Nat :=
  if m.bestBid ≤ 0 ∨ m.bestAsk ≤ 0 ∨ m.bestBid ≥ m.bestAsk then none
  else
    let mid := (i64 (m.bestBid + m.bestAsk)).tdiv 2
    let spread := i64 (m.bestAsk - m.bestBid)
    some (u64 spread * 10000 % 2 ^ 64 / u64 mid % 2 ^ 16)

/-- The intended price would cross the spread; a quote of zero is none. -/
def wouldCross (m : PostOnlyManager) (side : Side) (price : Int) : Bool :=
  match side with
  | .buy => decide (price ≥ m.bestAsk) && decide (m.bestAsk > 0)
  | .sell => decide (price ≤ m.bestBid) && decide (m.bestBid > 0)

/-- The price one tick inside the spread. -/
def adjustedPrice (m : PostOnlyManager) (side : Side) : Int :=
  match side with
  | .buy => max (i64 (m.bestAsk - m.config.tickSize)) 1
  | .sell => i64 (m.bestBid + m.config.tickSize)

/-- `adjustment_pct`: the adjustment as a share of the price. -/
def adjustmentPct (price adjusted : Int) : Rat := (|i64 (price - adjusted)| : Int) / (price : Int)

/-- The spread is too tight, with its basis points. -/
def tightSpread (m : PostOnlyManager) : Option Nat :=
  m.currentSpreadBps.filter fun bps => decide (bps < m.config.minSpreadBps)

/-- `validate_post_only`, without the statistics. -/
def validatePostOnly (m : PostOnlyManager) (side : Side) (price : Int) (now : Nat) :
    PostOnlyValidationResult :=
  if m.circuitBreaker = true then .circuitBreakerActive
  else if m.isSpreadDataFresh now = false then .staleSpreadData
  else
    match m.tightSpread with
    | some bps => .spreadTooTight bps
    | none =>
        if m.wouldCross side price = true then
          let adjusted := m.adjustedPrice side
          let pct := adjustmentPct price adjusted
          if pct > m.config.maxPriceAdjustmentPct then .adjustmentExceedsLimit pct
          else .requiresAdjustment price adjusted .spreadAvoidance
        else .valid

/-- A submission that is accepted: the order is kept and counted. -/
def accept (m : PostOnlyManager) (order : PostOnlyOrder) :
    Except PostOnlyError PostOnlyOrder × PostOnlyManager :=
  (.ok order,
    { m with
      orders := m.orders.insert order.orderId order
      stats :=
        { m.stats with
          totalOrdersSubmitted := (m.stats.totalOrdersSubmitted + 1) % 2 ^ 64
          ordersPriceAdjusted :=
            if order.priceModified = true then (m.stats.ordersPriceAdjusted + 1) % 2 ^ 64
            else m.stats.ordersPriceAdjusted } })

/-- `submit_post_only` at two readings of the clock. -/
def submitPostOnly (m : PostOnlyManager) (orderId symbol : String) (side : Side)
    (intendedPrice quantity : Int) (now submittedAt : Nat) :
    Except PostOnlyError PostOnlyOrder × PostOnlyManager :=
  let order (submittedPrice : Int) (reason : Option ModificationReason) : PostOnlyOrder :=
    { orderId := orderId
      symbol := symbol
      side := side
      intendedPrice := intendedPrice
      submittedPrice := submittedPrice
      quantity := quantity
      bestBid := m.bestBid
      bestAsk := m.bestAsk
      priceModified := reason.isSome
      modificationReason := reason
      submittedAt := submittedAt
      status := .submitted }
  match m.validatePostOnly side intendedPrice now with
  | .valid => m.accept (order intendedPrice none)
  | .requiresAdjustment _ adjusted reason => m.accept (order adjusted (some reason))
  | .circuitBreakerActive => (.error .circuitBreakerActive, m)
  | .staleSpreadData => (.error .staleMarketData, m)
  | .spreadTooTight bps =>
      (.error (.spreadTooTight bps),
        { m with
          stats :=
            { m.stats with
              spreadViolationsPrevented := (m.stats.spreadViolationsPrevented + 1) % 2 ^ 64 } })
  | .adjustmentExceedsLimit pct => (.error (.priceAdjustmentTooLarge pct), m)

/-! ## The cached quotes -/

/-- A call of `update_market_data` with its reading of the clock. -/
structure Update where
  bestBid : Int
  bestAsk : Int
  now : Nat
  deriving Repr, DecidableEq

/-- Quotes that are positive and not crossed. -/
def Update.Proper (u : Update) : Prop := 0 < u.bestBid ∧ 0 < u.bestAsk ∧ u.bestBid < u.bestAsk

instance (u : Update) : Decidable u.Proper := inferInstanceAs (Decidable (_ ∧ _))

/-- The manager after a sequence of updates. -/
def updated (m : PostOnlyManager) (updates : List Update) : PostOnlyManager :=
  updates.foldl (fun m u => m.updateMarketData u.bestBid u.bestAsk u.now) m

/-- There are quotes in the cache. -/
def Quoted (m : PostOnlyManager) : Prop := 0 < m.bestBid ∧ m.bestBid < m.bestAsk

theorem updateMarketData_of_proper {m : PostOnlyManager} {u : Update} (h : u.Proper) :
    Quoted (m.updateMarketData u.bestBid u.bestAsk u.now) := by
  have hquotes : u.bestBid > 0 ∧ u.bestAsk > 0 ∧ u.bestBid < u.bestAsk := h
  rw [updateMarketData, if_pos hquotes]
  exact ⟨h.1, h.2.2⟩

/-- Quotes in the cache stay quotes, -/
theorem updateMarketData_quoted {m : PostOnlyManager} (h : Quoted m) (u : Update) :
    Quoted (m.updateMarketData u.bestBid u.bestAsk u.now) := by
  by_cases hproper : u.Proper
  · exact updateMarketData_of_proper hproper
  · have hnot : ¬ (u.bestBid > 0 ∧ u.bestAsk > 0 ∧ u.bestBid < u.bestAsk) := hproper
    rw [updateMarketData, if_neg hnot]
    exact h

/-- from the first proper update on. -/
theorem updated_quoted {m : PostOnlyManager} {updates : List Update}
    (h : Quoted m ∨ ∃ u ∈ updates, u.Proper) : Quoted (m.updated updates) := by
  induction updates generalizing m with
  | nil => exact h.resolve_right fun ⟨_, hu, _⟩ => List.not_mem_nil hu
  | cons u updates ih =>
      refine ih (m := m.updateMarketData u.bestBid u.bestAsk u.now) ?_
      rcases h with hquoted | ⟨v, hv, hproper⟩
      · exact Or.inl (updateMarketData_quoted hquoted u)
      · rcases List.mem_cons.mp hv with rfl | hv
        · exact Or.inl (updateMarketData_of_proper hproper)
        · exact Or.inr ⟨v, hv, hproper⟩

/-- Updates leave the configuration alone. -/
theorem updated_config (m : PostOnlyManager) (updates : List Update) :
    (m.updated updates).config = m.config := by
  induction updates generalizing m with
  | nil => rfl
  | cons u updates ih =>
      refine (ih (m.updateMarketData u.bestBid u.bestAsk u.now)).trans ?_
      unfold updateMarketData
      split_ifs <;> rfl

/-! ## What a submission promises -/

/-- No signed operation of a submission overflows. -/
def InRange (m : PostOnlyManager) (price : Int) : Prop :=
  m.bestBid + m.bestAsk < 2 ^ 63 ∧ m.bestBid + m.config.tickSize < 2 ^ 63 ∧
    m.config.tickSize < 2 ^ 63 ∧ price < 2 ^ 63

instance (m : PostOnlyManager) (price : Int) : Decidable (InRange m price) :=
  inferInstanceAs (Decidable (_ ∧ _))

/-- The spread in basis points of the mid price, rounded down. -/
def trueSpreadBps (m : PostOnlyManager) : Int :=
  10000 * (m.bestAsk - m.bestBid) / ((m.bestBid + m.bestAsk) / 2)

/-- The same with a product of 64 bits. -/
def wrappedSpreadBps (m : PostOnlyManager) : Int :=
  10000 * (m.bestAsk - m.bestBid) % 2 ^ 64 / ((m.bestBid + m.bestAsk) / 2)

/-- A spread of at least the minimum still is one when its product wraps. -/
def SpreadHeld (m : PostOnlyManager) : Prop :=
  m.config.minSpreadBps ≤ m.trueSpreadBps → m.config.minSpreadBps ≤ m.wrappedSpreadBps

instance (m : PostOnlyManager) : Decidable (SpreadHeld m) :=
  inferInstanceAs (Decidable (_ → _))

/-- A product that fits into 64 bits does not wrap. -/
theorem SpreadHeld.of_fits {m : PostOnlyManager} (ordered : m.bestBid ≤ m.bestAsk)
    (fits : 10000 * (m.bestAsk - m.bestBid) < 2 ^ 64) : SpreadHeld m := by
  have hsame : m.wrappedSpreadBps = m.trueSpreadBps := by
    rw [wrappedSpreadBps, trueSpreadBps, Int.emod_eq_of_lt (by omega) fits]
  intro h
  rwa [hsame]

/-- **The promise of a submission** against the quotes in the cache.  An accepted price stays
on its side of the spread, and differs from the intended one exactly if that would cross, and
by no more than the share that is allowed.  With fresh data and the breaker off, a spread
below the minimum is what is refused as too tight. -/
structure Sound (m : PostOnlyManager) (orderId symbol : String) (side : Side)
    (price quantity : Int) (now submittedAt : Nat) : Prop where
  /-- a buy stays below the best ask -/
  buy : ∀ order, (m.submitPostOnly orderId symbol side price quantity now submittedAt).1 =
    .ok order → side = .buy → 0 < order.submittedPrice ∧ order.submittedPrice < m.bestAsk
  /-- a sell above the best bid -/
  sell : ∀ order, (m.submitPostOnly orderId symbol side price quantity now submittedAt).1 =
    .ok order → side = .sell → m.bestBid < order.submittedPrice
  /-- only what would cross is moved -/
  moved : ∀ order, (m.submitPostOnly orderId symbol side price quantity now submittedAt).1 =
    .ok order → (order.submittedPrice ≠ price ↔
      (side = .buy ∧ m.bestAsk ≤ price) ∨ (side = .sell ∧ price ≤ m.bestBid))
  /-- and by a share at most -/
  share : ∀ order, (m.submitPostOnly orderId symbol side price quantity now submittedAt).1 =
    .ok order →
      |(order.submittedPrice : Rat) - price| ≤ m.config.maxPriceAdjustmentPct * price
  /-- a spread below the minimum, and no other, is too tight -/
  tight : m.isSpreadDataFresh now = true → m.circuitBreaker = false →
    ((∃ bps, (m.submitPostOnly orderId symbol side price quantity now submittedAt).1 =
        .error (.spreadTooTight bps)) ↔ m.trueSpreadBps < m.config.minSpreadBps)

/-! ## Why it holds -/

section Quoted

variable {m : PostOnlyManager}

/-- The basis points are those of the product as it wraps: the cut to 16 bits takes nothing
away, because the quotient stays below 20000. -/
theorem currentSpreadBps_eq (quoted : Quoted m) (sum : m.bestBid + m.bestAsk < 2 ^ 63) :
    ∃ bps : Nat, m.currentSpreadBps = some bps ∧ (bps : Int) = m.wrappedSpreadBps := by
  obtain ⟨hbid, hlt⟩ := quoted
  have hnot : ¬ (m.bestBid ≤ 0 ∨ m.bestAsk ≤ 0 ∨ m.bestBid ≥ m.bestAsk) := by omega
  have hsum : i64 (m.bestBid + m.bestAsk) = m.bestBid + m.bestAsk := i64_of_range (by omega) sum
  have hdiff : i64 (m.bestAsk - m.bestBid) = m.bestAsk - m.bestBid :=
    i64_of_range (by omega) (by omega)
  have hmid : (m.bestBid + m.bestAsk).tdiv 2 = (m.bestBid + m.bestAsk) / 2 :=
    Int.tdiv_eq_ediv_of_nonneg (by omega)
  obtain ⟨spread, hspread⟩ := Int.eq_ofNat_of_zero_le (show 0 ≤ m.bestAsk - m.bestBid by omega)
  obtain ⟨mid, hmidNat⟩ :=
    Int.eq_ofNat_of_zero_le (show 0 ≤ (m.bestBid + m.bestAsk) / 2 by omega)
  have hmidPos : 0 < mid := by omega
  have hspreadMid : spread ≤ 2 * mid := by omega
  have hwords : u64 (m.bestAsk - m.bestBid) = spread ∧ u64 ((m.bestBid + m.bestAsk) / 2) = mid := by
    rw [hspread, hmidNat]
    exact ⟨u64_natCast (by omega), u64_natCast (by omega)⟩
  have hsmall : spread * 10000 % 2 ^ 64 / mid < 2 ^ 16 := by
    have hle : spread * 10000 % 2 ^ 64 / mid ≤ 20000 :=
      Nat.div_le_of_le_mul ((Nat.mod_le _ _).trans (by omega))
    omega
  refine ⟨spread * 10000 % 2 ^ 64 / mid, ?_, ?_⟩
  · simp only [currentSpreadBps, if_neg hnot, hsum, hdiff, hmid, hwords.1, hwords.2]
    rw [Nat.mod_eq_of_lt hsmall]
  · rw [wrappedSpreadBps, hspread, hmidNat]
    push_cast
    rw [Int.mul_comm]

/-- A wrapped product is at most the true one. -/
theorem wrappedSpreadBps_le (quoted : Quoted m) : m.wrappedSpreadBps ≤ m.trueSpreadBps := by
  obtain ⟨hbid, hlt⟩ := quoted
  have hwrapped : 10000 * (m.bestAsk - m.bestBid) % 2 ^ 64 ≤ 10000 * (m.bestAsk - m.bestBid) := by
    omega
  exact Int.ediv_le_ediv (by omega) hwrapped

/-- The test of the spread is the one of the true basis points exactly if the spread holds. -/
theorem tight_iff_spreadHeld (quoted : Quoted m) (sum : m.bestBid + m.bestAsk < 2 ^ 63) :
    (m.tightSpread.isSome = true ↔ m.trueSpreadBps < m.config.minSpreadBps) ↔ SpreadHeld m := by
  obtain ⟨bps, hbps, hwrapped⟩ := currentSpreadBps_eq quoted sum
  have hle := wrappedSpreadBps_le quoted
  have htight : m.tightSpread.isSome = true ↔ m.wrappedSpreadBps < m.config.minSpreadBps := by
    rw [tightSpread, hbps, ← hwrapped]
    simp [Option.filter]
  rw [htight, SpreadHeld]
  omega

/-- With quotes, a price crosses if it reaches the other side. -/
theorem wouldCross_iff (quoted : Quoted m) (side : Side) (price : Int) :
    m.wouldCross side price = true ↔
      (side = .buy ∧ m.bestAsk ≤ price) ∨ (side = .sell ∧ price ≤ m.bestBid) := by
  obtain ⟨hbid, hlt⟩ := quoted
  cases side with
  | buy => simp [wouldCross]; omega
  | sell => simp [wouldCross]; omega

/-- The price one tick inside the spread is on its side of it. -/
theorem adjustedPrice_spec (quoted : Quoted m) (tick : 1 ≤ m.config.tickSize) {price : Int}
    (range : InRange m price) (side : Side) :
    (side = .buy → 0 < m.adjustedPrice side ∧ m.adjustedPrice side < m.bestAsk) ∧
      (side = .sell → m.bestBid < m.adjustedPrice side ∧ m.adjustedPrice side < 2 ^ 63) := by
  obtain ⟨hbid, hlt⟩ := quoted
  obtain ⟨hsum, hplus, htick, -⟩ := range
  cases side with
  | buy =>
      refine ⟨fun _ => ?_, fun h => nomatch h⟩
      rw [adjustedPrice, i64_of_range (by omega) (by omega)]
      omega
  | sell =>
      refine ⟨(fun h => nomatch h), fun _ => ?_⟩
      rw [adjustedPrice, i64_of_range (by omega) (by omega)]
      omega

/-- An adjustment within the limit is a share of the price. -/
theorem share_of_adjustmentPct {price adjusted : Int} (positive : 0 < price)
    (bound : price < 2 ^ 63) (adjustedPos : 0 < adjusted) (adjustedBound : adjusted < 2 ^ 63)
    {pct : Rat} (h : adjustmentPct price adjusted ≤ pct) :
    |(adjusted : Rat) - price| ≤ pct * price := by
  have hpos : (0 : Rat) < price := by exact_mod_cast positive
  have hdiff : i64 (price - adjusted) = price - adjusted := i64_of_range (by omega) (by omega)
  rw [adjustmentPct, hdiff, div_le_iff₀ hpos] at h
  rw [abs_sub_comm]
  exact_mod_cast h

/-- A submitted price is the intended one, which does not cross, or the one inside the spread,
which is near enough. -/
def AcceptedAt (m : PostOnlyManager) (side : Side) (price submitted : Int) : Prop :=
  (m.wouldCross side price = false ∧ submitted = price) ∨
    (m.wouldCross side price = true ∧ submitted = m.adjustedPrice side ∧
      adjustmentPct price (m.adjustedPrice side) ≤ m.config.maxPriceAdjustmentPct)

section Accepted

variable {side : Side} {price submitted : Int}

/-- A price that does not cross stays on its side. -/
theorem not_crossing (quoted : Quoted m) (h : m.wouldCross side price = false) :
    ¬ ((side = .buy ∧ m.bestAsk ≤ price) ∨ (side = .sell ∧ price ≤ m.bestBid)) :=
  fun hcross => Bool.eq_false_iff.mp h ((wouldCross_iff quoted side price).mpr hcross)

/-- An accepted buy is positive and below the best ask, -/
theorem AcceptedAt.buy (h : AcceptedAt m .buy price submitted) (quoted : Quoted m)
    (tick : 1 ≤ m.config.tickSize) (range : InRange m price) (positive : 0 < price) :
    0 < submitted ∧ submitted < m.bestAsk := by
  rcases h with ⟨hfalse, rfl⟩ | ⟨-, rfl, -⟩
  · exact ⟨positive, not_le.mp fun hle => not_crossing quoted hfalse (Or.inl ⟨rfl, hle⟩)⟩
  · exact (adjustedPrice_spec quoted tick range .buy).1 rfl

/-- an accepted sell above the best bid. -/
theorem AcceptedAt.sell (h : AcceptedAt m .sell price submitted) (quoted : Quoted m)
    (tick : 1 ≤ m.config.tickSize) (range : InRange m price) : m.bestBid < submitted := by
  rcases h with ⟨hfalse, rfl⟩ | ⟨-, rfl, -⟩
  · exact not_le.mp fun hle => not_crossing quoted hfalse (Or.inr ⟨rfl, hle⟩)
  · exact ((adjustedPrice_spec quoted tick range .sell).2 rfl).1

/-- **A price is moved** exactly if it would cross, -/
theorem AcceptedAt.moved (h : AcceptedAt m side price submitted) (quoted : Quoted m)
    (tick : 1 ≤ m.config.tickSize) (range : InRange m price) :
    submitted ≠ price ↔
      (side = .buy ∧ m.bestAsk ≤ price) ∨ (side = .sell ∧ price ≤ m.bestBid) := by
  rcases h with ⟨hfalse, rfl⟩ | ⟨htrue, rfl, -⟩
  · exact iff_of_false (fun hne => hne rfl) (not_crossing quoted hfalse)
  · -- a price that would cross is not on its side of the spread
    have hcross := (wouldCross_iff quoted side price).mp htrue
    obtain ⟨hbuy, hsell⟩ := adjustedPrice_spec quoted tick range side
    refine iff_of_true (fun heq => ?_) hcross
    rcases hcross with ⟨hside, hle⟩ | ⟨hside, hle⟩
    · exact absurd (heq ▸ (hbuy hside).2) (not_lt.mpr hle)
    · exact absurd (heq ▸ (hsell hside).1) (not_lt.mpr hle)

/-- and by no more than is allowed. -/
theorem AcceptedAt.share (h : AcceptedAt m side price submitted) (quoted : Quoted m)
    (tick : 1 ≤ m.config.tickSize) (range : InRange m price) (positive : 0 < price)
    (pct : 0 ≤ m.config.maxPriceAdjustmentPct) :
    |(submitted : Rat) - price| ≤ m.config.maxPriceAdjustmentPct * price := by
  rcases h with ⟨-, rfl⟩ | ⟨-, rfl, hlimit⟩
  · rw [sub_self, abs_zero]
    have hpos : (0 : Rat) ≤ submitted := by exact_mod_cast positive.le
    exact mul_nonneg pct hpos
  · obtain ⟨hbuy, hsell⟩ := adjustedPrice_spec quoted tick range side
    refine share_of_adjustmentPct positive range.2.2.2 ?_ ?_ hlimit
    · cases side with
      | buy => exact (hbuy rfl).1
      | sell => exact quoted.1.trans (hsell rfl).1
    · cases side with
      | buy =>
          have hask := (hbuy rfl).2
          have hbid := quoted.1
          have hsum := range.1
          omega
      | sell => exact (hsell rfl).2

end Accepted

end Quoted

/-- **An accepted price is the intended one or the one inside the spread**, and a submission
that is not accepted has its reason. -/
theorem submitPostOnly_cases (m : PostOnlyManager) (orderId symbol : String) (side : Side)
    (price quantity : Int) (now submittedAt : Nat) :
    (∀ order, (m.submitPostOnly orderId symbol side price quantity now submittedAt).1 =
      .ok order → AcceptedAt m side price order.submittedPrice) ∧
    (m.isSpreadDataFresh now = true → m.circuitBreaker = false →
      ((∃ bps, (m.submitPostOnly orderId symbol side price quantity now submittedAt).1 =
        .error (.spreadTooTight bps)) ↔ m.tightSpread.isSome = true)) := by
  simp only [submitPostOnly, validatePostOnly, accept]
  cases hbreaker : m.circuitBreaker with
  | true => simp
  | false =>
      cases hfresh : m.isSpreadDataFresh now with
      | false => simp
      | true =>
          cases htight : m.tightSpread with
          | some bps => simp
          | none =>
              cases hcross : m.wouldCross side price with
              | false =>
                  simp only [Bool.false_eq_true, if_false, reduceCtorEq]
                  refine ⟨fun order horder => Or.inl ⟨hcross, ?_⟩, fun _ _ => by simp⟩
                  rw [← Except.ok.inj horder]
              | true =>
                  by_cases hlimit : adjustmentPct price (m.adjustedPrice side) >
                      m.config.maxPriceAdjustmentPct
                  · simp [hlimit]
                  · simp only [Bool.false_eq_true, if_false, if_true, hlimit, reduceCtorEq]
                    refine ⟨fun order horder => Or.inr ⟨hcross, ?_, not_lt.mp hlimit⟩,
                      fun _ _ => by simp⟩
                    rw [← Except.ok.inj horder]

/-- With quotes in the cache all that can go wrong is the test of the spread. -/
theorem Quoted.sound {m : PostOnlyManager} (quoted : Quoted m) (tick : 1 ≤ m.config.tickSize)
    (pct : 0 ≤ m.config.maxPriceAdjustmentPct) {price : Int} (positive : 0 < price)
    (range : InRange m price) {now : Nat}
    (spread : m.isSpreadDataFresh now = true → m.circuitBreaker = false → SpreadHeld m)
    (orderId symbol : String) (side : Side) (quantity : Int) (submittedAt : Nat) :
    Sound m orderId symbol side price quantity now submittedAt := by
  obtain ⟨haccepted, htight⟩ :=
    submitPostOnly_cases m orderId symbol side price quantity now submittedAt
  refine ⟨fun order horder hside => ?_, fun order horder hside => ?_, fun order horder => ?_,
    fun order horder => ?_, fun hfresh hbreaker => ?_⟩
  · subst hside
    exact (haccepted order horder).buy quoted tick range positive
  · subst hside
    exact (haccepted order horder).sell quoted tick range
  · exact (haccepted order horder).moved quoted tick range
  · exact (haccepted order horder).share quoted tick range positive pct
  · rw [htight hfresh hbreaker]
    exact (tight_iff_spreadHeld quoted range.1).mpr (spread hfresh hbreaker)

/-- A submission that is refused promises nothing: neither the breaker nor the test of freshness
lets an order through. -/
theorem sound_of_refused {m : PostOnlyManager} {now : Nat}
    (refused : m.circuitBreaker = true ∨ m.isSpreadDataFresh now = false)
    (orderId symbol : String) (side : Side) (price quantity : Int) (submittedAt : Nat) :
    Sound m orderId symbol side price quantity now submittedAt := by
  have hnone : ∀ order, (m.submitPostOnly orderId symbol side price quantity now submittedAt).1 ≠
      .ok order := by
    intro order
    rcases refused with hbreaker | hstale
    · simp [submitPostOnly, validatePostOnly, hbreaker]
    · cases hbreaker : m.circuitBreaker <;>
        simp [submitPostOnly, validatePostOnly, hbreaker, hstale]
  refine ⟨fun order h => (hnone order h).elim, fun order h => (hnone order h).elim,
    fun order h => (hnone order h).elim, fun order h => (hnone order h).elim, ?_⟩
  intro hfresh hopen
  rcases refused with hbreaker | hstale
  · exact (Bool.false_ne_true (hopen.symm.trans hbreaker)).elim
  · exact (Bool.false_ne_true (hstale.symm.trans hfresh)).elim

/-- Without quotes in the cache an order that is not refused outright is accepted as it is, and a
buy then is above the best ask of zero. -/
theorem not_sound_of_empty {m : PostOnlyManager} {now : Nat} (bid : m.bestBid = 0)
    (ask : m.bestAsk = 0) (breaker : m.circuitBreaker = false)
    (fresh : m.isSpreadDataFresh now = true) (orderId symbol : String) {price : Int}
    (positive : 0 < price) (quantity : Int) (submittedAt : Nat) :
    ¬ Sound m orderId symbol .buy price quantity now submittedAt := by
  intro sound
  have htight : m.tightSpread = none := by
    simp [tightSpread, currentSpreadBps, bid, ask]
  have hcross : m.wouldCross .buy price = false := by simp [wouldCross, ask]
  have hok : ∃ order, (m.submitPostOnly orderId symbol .buy price quantity now submittedAt).1 =
      .ok order ∧ order.submittedPrice = price := by
    simp [submitPostOnly, validatePostOnly, accept, breaker, fresh, htight, hcross]
  obtain ⟨order, horder, hprice⟩ := hok
  have hbuy := (sound.buy order horder rfl).2
  omega

/-- Updates that are not proper leave a new manager's cache empty. -/
theorem updated_new_of_improper (config : PostOnlyConfig) {updates : List Update}
    (improper : ∀ u ∈ updates, ¬ u.Proper) : (new config).updated updates = new config := by
  induction updates with
  | nil => rfl
  | cons u updates ih =>
      have hnot : ¬ (u.bestBid > 0 ∧ u.bestAsk > 0 ∧ u.bestBid < u.bestAsk) :=
        improper u List.mem_cons_self
      have hskip : (new config).updateMarketData u.bestBid u.bestAsk u.now = new config := by
        rw [updateMarketData, if_neg hnot]
      rw [updated, List.foldl_cons, hskip]
      exact ih fun v hv => improper v (List.mem_cons_of_mem u hv)

/-- **When submissions keep their promise.**  At a price, on both sides and for whatever else is
in the call, they do exactly if they are refused outright, or proper quotes have come in and
the spread holds. -/
theorem submitPostOnly_sound_iff (config : PostOnlyConfig) (tick : 1 ≤ config.tickSize)
    (pct : 0 ≤ config.maxPriceAdjustmentPct) (updates : List Update) (circuitBreaker : Bool)
    (m : PostOnlyManager)
    (hm : m = { (new config).updated updates with circuitBreaker := circuitBreaker })
    (price : Int) (positive : 0 < price) (range : InRange m price) (now : Nat) :
    (∀ orderId symbol side quantity submittedAt,
        Sound m orderId symbol side price quantity now submittedAt) ↔
      circuitBreaker = true ∨ m.isSpreadDataFresh now = false ∨
        (∃ u ∈ updates, u.Proper) ∧ SpreadHeld m := by
  have hbreaker : m.circuitBreaker = circuitBreaker := by rw [hm]
  have hconfig : m.config = config := by
    rw [hm]
    exact updated_config (new config) updates
  constructor
  · intro sound
    by_contra hcond
    obtain ⟨hopen, hfresh, hquotes⟩ : circuitBreaker = false ∧ m.isSpreadDataFresh now = true ∧
        ((∃ u ∈ updates, u.Proper) → ¬ SpreadHeld m) := by
      simpa [not_or, not_and] using hcond
    have hclosed : m.circuitBreaker = false := hbreaker.trans hopen
    by_cases proper : ∃ u ∈ updates, u.Proper
    · have quoted : Quoted m := by
        rw [hm]
        exact updated_quoted (m := new config) (Or.inr proper)
      have htight := (submitPostOnly_cases m "" "" .buy price 0 now 0).2 hfresh hclosed
      have hpromise := (sound "" "" .buy 0 0).tight hfresh hclosed
      exact hquotes proper ((tight_iff_spreadHeld quoted range.1).mp (htight.symm.trans hpromise))
    · have hempty : (new config).updated updates = new config :=
        updated_new_of_improper config fun u hu hproper => proper ⟨u, hu, hproper⟩
      have hbid : m.bestBid = 0 := by rw [hm, hempty]; rfl
      have hask : m.bestAsk = 0 := by rw [hm, hempty]; rfl
      exact not_sound_of_empty hbid hask hclosed hfresh "" "" positive 0 0 (sound "" "" .buy 0 0)
  · rintro (hon | hstale | ⟨proper, spread⟩) orderId symbol side quantity submittedAt
    · exact sound_of_refused (Or.inl (hbreaker.trans hon)) orderId symbol side price quantity
        submittedAt
    · exact sound_of_refused (Or.inr hstale) orderId symbol side price quantity submittedAt
    · have quoted : Quoted m := by
        rw [hm]
        exact updated_quoted (m := new config) (Or.inr proper)
      exact quoted.sound (hconfig ▸ tick) (hconfig ▸ pct) positive range (fun _ _ => spread)
        orderId symbol side quantity submittedAt

/-- A buy at the best ask of 10100 over a bid of 10000 is moved to 10099, and every submission at
that price keeps its promise. -/
theorem submitPostOnly_sound_iff_adjusted :
    let m : PostOnlyManager :=
      { (new .default).updated [⟨10000, 10100, 1000⟩] with circuitBreaker := false }
    (∃ order, (m.submitPostOnly "ORD001" "BTCUSDT" .buy 10100 1 2000 2001).1 = .ok order ∧
        order.submittedPrice = 10099) ∧
      ∀ orderId symbol side quantity submittedAt,
        Sound m orderId symbol side 10100 quantity 2000 submittedAt :=
  ⟨⟨⟨"ORD001", "BTCUSDT", .buy, 10100, 10099, 1, 10000, 10100, true, some .spreadAvoidance, 2001,
      .submitted⟩, by decide +kernel, rfl⟩,
    (submitPostOnly_sound_iff .default (by decide) (by decide +kernel) [⟨10000, 10100, 1000⟩] false
      _ rfl 10100 (by decide) (by decide) 2000).mpr (Or.inr (Or.inr ⟨by decide, by decide⟩))⟩

/-- The default configuration with a staleness bound of 10 ^ 13 ms. -/
def longStaleness : PostOnlyConfig := { PostOnlyConfig.default with spreadStalenessMs := 10 ^ 13 }

/-- Without any quotes a buy is accepted, above a best ask of zero. -/
theorem not_forall_submitPostOnly_sound :
    ¬ ∀ (updates : List Update) (price : Int), 0 < price →
      InRange ((new longStaleness).updated updates) price →
      Sound ((new longStaleness).updated updates) "ORD001" "BTCUSDT" .buy price 1
        1700000000000000000 1700000000000000001 := by
  intro h
  have hbuy := (h [] 100 (by decide) (by decide)).buy
    ⟨"ORD001", "BTCUSDT", .buy, 100, 100, 1, 0, 0, false, none, 1700000000000000001, .submitted⟩
    (by decide +kernel) rfl
  exact absurd hbuy.2 (by decide)

/-- With a product of 2 ^ 64 the widest of spreads counts as none. -/
example : (((new .default).updated [⟨1, 1844674407370957, 0⟩]).submitPostOnly "ORD001" "BTCUSDT"
    .buy 100 1 0 0).1 = .error (.spreadTooTight 0) := by
  decide +kernel

end PostOnlyManager

end StopTrading.Execution.PostOnly
