import StopTrading.Library.MachineInt
import Mathlib.Data.List.Induction

/-!
# The pre-trade check

`PreTradeRiskValidator` and its `validateOrder`.  Words are numbers, and where the
code narrows (`u64`), reinterprets (`i64`) or saturates (`saturateI64`) the model
does the same; `overflowChecks` says whether the build traps the one overflow that
is left, `i64::MIN.abs()`, or wraps it.

`PassesSpec` is the check in unbounded arithmetic, and `MeetsSpec` says that
`validateOrder` decides it.  Sizes and notionals are compared exactly.  Two things
are not:

* the price deviation is computed in 128 bits and narrowed to 64, so an enormous
  deviation can become a small one;
* a size from `2 ^ 63` on is negative as an `i64`, and the new position saturates:
  at the bottom it has no absolute value, at the top it can equal the limit.

`ChecksExactly` spells out what is left (`meetsSpec_iff`).

### What is load-bearing

`validateOrder_cases` takes the function apart once, into what rejects and what is left to the
position check.  After it the three parts are independent: the sizes are exact as they stand, the
band is the band around the mid price with a narrowed deviation (`withinBand_iff`), and the
position check is a statement about one saturated sum (`exists_position_iff`).

A narrowed deviation is never larger than the exact one, so the code only ever refuses more
prices (`WithinBand.mono`).  An order that it refuses wrongly may still be refused rightly for
its position, and this is why `ChecksExactly` has two cases.

### Design decisions

Words are numbers in a range and not fixed-width types.  The specification is about the numbers,
and the ranges of a validator are kept by `InRange`, which every sequence of updates preserves.
-/

namespace StopTrading.Risk

open MachineInt

/-- `FatFingerResult`. -/
inductive FatFingerResult where
  | ok
  | priceTooHigh (price : Nat)
  | priceTooLow (price : Nat)
  | sizeTooLarge (size : Nat)
  | sizeTooSmall (size : Nat)
  | notionalExceeded (notional : Nat)
  deriving Repr, DecidableEq

/-- `PreTradeRiskParams`. -/
structure PreTradeRiskParams where
  maxOrderSize : Nat
  minOrderSize : Nat
  maxPriceDeviationBps : Nat
  maxNotional : Nat
  maxPosition : Int
  deriving Repr, DecidableEq

/-- `PreTradeRiskValidator`. -/
structure PreTradeRiskValidator where
  params : PreTradeRiskParams
  currentPosition : Int
  isActive : Bool
  rejectionCount : Nat
  deriving Repr, DecidableEq

/-- The side of an order: `true` buys, `false` sells. -/
abbrev BuySide := Bool

/-- `i64::abs`: the smallest word has no absolute value; a checked build panics on it
and an unchecked one returns it. -/
def absI64 (overflowChecks : Bool) (x : Int) : Option Int :=
  if x = -2 ^ 63 then if overflowChecks then none else some x else some (x.natAbs : Int)

/-- The allowed price deviation, in 128 bits. -/
def priceDeviation (midPrice maxPriceDeviationBps : Nat) : Nat :=
  midPrice * maxPriceDeviationBps / 10000

namespace PreTradeRiskValidator

/-- `PreTradeRiskValidator::new`. -/
def new (params : PreTradeRiskParams) : PreTradeRiskValidator := ⟨params, 0, true, 0⟩

/-- A rejection is counted. -/
def reject (v : PreTradeRiskValidator) (result : FatFingerResult) :
    FatFingerResult × PreTradeRiskValidator :=
  (result, { v with rejectionCount := (v.rejectionCount + 1) % 2 ^ 64 })

/-- The position an order leads to, as `validate_order` computes it. -/
def newPosition (v : PreTradeRiskValidator) (side : BuySide) (size : Nat) : Int :=
  if side then saturateI64 (v.currentPosition + i64 size)
  else saturateI64 (v.currentPosition - i64 size)

/-- `validate_order`; `none` is a panic. -/
def validateOrder (overflowChecks : Bool) (v : PreTradeRiskValidator) (side : BuySide)
    (price size midPrice : Nat) : Option (FatFingerResult × PreTradeRiskValidator) :=
  if v.isActive = false then some (v.reject (.priceTooHigh 0))
  else if size < v.params.minOrderSize then some (v.reject (.sizeTooSmall size))
  else if size > v.params.maxOrderSize then some (v.reject (.sizeTooLarge size))
  else
    let maxDeviation := priceDeviation midPrice v.params.maxPriceDeviationBps % 2 ^ 64
    let priceFloor := midPrice - maxDeviation
    let priceCeiling := min (midPrice + maxDeviation) (2 ^ 64 - 1)
    if price < priceFloor then some (v.reject (.priceTooLow price))
    else if price > priceCeiling then some (v.reject (.priceTooHigh price))
    else if price * size > v.params.maxNotional then
      some (v.reject (.notionalExceeded (price * size)))
    else
      (absI64 overflowChecks (v.newPosition side size)).map fun position =>
        if position > v.params.maxPosition then
          v.reject (.notionalExceeded (v.newPosition side size).natAbs)
        else (.ok, v)

/-- `update_position`. -/
def updatePosition (v : PreTradeRiskValidator) (side : BuySide) (size : Nat) :
    PreTradeRiskValidator :=
  let delta := if side then i64 size else i64 (-i64 size)
  { v with currentPosition := i64 (v.currentPosition + delta) }

/-- The position of the order in unbounded arithmetic. -/
def exactPosition (v : PreTradeRiskValidator) (side : BuySide) (size : Nat) : Int :=
  if side then v.currentPosition + size else v.currentPosition - size

/-! ## The specification -/

/-- The order respects the size limits and the notional limit. -/
structure WithinSize (v : PreTradeRiskValidator) (price size : Nat) : Prop where
  min_le : v.params.minOrderSize ≤ size
  le_max : size ≤ v.params.maxOrderSize
  /-- The notional is a product of 128 bits in the code, and does not overflow. -/
  notional : price * size ≤ v.params.maxNotional

/-- The price lies within a deviation of the mid price. -/
structure WithinBand (price midPrice deviation : Nat) : Prop where
  /-- The price is not too low, -/
  floor : (midPrice : Int) - deviation ≤ price
  /-- and not too high. -/
  ceiling : (price : Int) ≤ midPrice + deviation

/-- The position stays within the limit. -/
def WithinPosition (v : PreTradeRiskValidator) (side : BuySide) (size : Nat) : Prop :=
  |v.exactPosition side size| ≤ v.params.maxPosition

/-- **The pre-trade check in unbounded arithmetic.** -/
structure PassesSpec (v : PreTradeRiskValidator) (side : BuySide) (price size midPrice : Nat) :
    Prop where
  withinSize : v.WithinSize price size
  withinBand : WithinBand price midPrice (priceDeviation midPrice v.params.maxPriceDeviationBps)
  withinPosition : v.WithinPosition side size

/-- **The check returns, and accepts just what passes.** -/
def MeetsSpec (overflowChecks : Bool) (v : PreTradeRiskValidator) (side : BuySide)
    (price size midPrice : Nat) : Prop :=
  ∃ result v', v.validateOrder overflowChecks side price size midPrice = some (result, v') ∧
    (result = .ok ↔ v.PassesSpec side price size midPrice)

/-- **The new position is decided exactly.**  An ordinary size must not take it to the
smallest word, nor beyond the largest when that is the limit.  A size from `2 ^ 63` on
moves the position the other way, and the two verdicts agree by accident. -/
def PositionExact (overflowChecks : Bool) (v : PreTradeRiskValidator) (side : BuySide)
    (size : Nat) : Prop :=
  let position := v.exactPosition side size
  let limit := v.params.maxPosition
  if size < 2 ^ 63 then
    -2 ^ 63 < position ∧ (2 ^ 63 ≤ position → limit < 2 ^ 63 - 1)
  else if side then
    if position ≤ 2 ^ 63 then overflowChecks = false ∧ position ≤ limit
    else limit < |position - 2 ^ 64|
  else if position < -2 ^ 63 then limit < |position + 2 ^ 64|
  else if limit = 2 ^ 63 - 1 then -2 ^ 63 < position
  else limit < -position

/-- **The check is exact**: an order within the sizes and the exact price band keeps
within the narrowed one and has its position decided exactly; or it falls out of the
narrowed band and would have exceeded the position limit. -/
def ChecksExactly (overflowChecks : Bool) (v : PreTradeRiskValidator) (side : BuySide)
    (price size midPrice : Nat) : Prop :=
  let deviation := priceDeviation midPrice v.params.maxPriceDeviationBps
  v.WithinSize price size → WithinBand price midPrice deviation →
    (WithinBand price midPrice (deviation % 2 ^ 64) ∧ v.PositionExact overflowChecks side size) ∨
      (¬ WithinBand price midPrice (deviation % 2 ^ 64) ∧ ¬ v.WithinPosition side size)

/-! ## The position -/

/-- What a check of an absolute value comes to, in either kind of build. -/
theorem exists_absI64_iff {overflowChecks : Bool} {x : Int} {Q : Int → Prop} :
    (∃ p, absI64 overflowChecks x = some p ∧ Q p) ↔
      if x = -2 ^ 63 then overflowChecks = false ∧ Q x else Q |x| := by
  rw [Int.abs_eq_natAbs]
  unfold absI64
  split
  · cases overflowChecks <;> simp
  · simp

/-- The words of a validator are in range. -/
structure InRange (v : PreTradeRiskValidator) : Prop where
  position_ge : -2 ^ 63 ≤ v.currentPosition
  position_lt : v.currentPosition < 2 ^ 63
  limit_ge : -2 ^ 63 ≤ v.params.maxPosition
  limit_lt : v.params.maxPosition < 2 ^ 63

/-- **What the position check decides.** -/
theorem exists_position_iff {overflowChecks : Bool} {v : PreTradeRiskValidator} (hv : v.InRange)
    (side : BuySide) {size : Nat} (hsize : size < 2 ^ 64) :
    (∃ p, absI64 overflowChecks (v.newPosition side size) = some p ∧
      (p ≤ v.params.maxPosition ↔ v.WithinPosition side size)) ↔
        v.PositionExact overflowChecks side size := by
  obtain ⟨hpge, hplt, hlge, hllt⟩ := hv
  rw [exists_absI64_iff]
  unfold newPosition PositionExact WithinPosition exactPosition
  simp only [abs_le, lt_abs]
  by_cases hsmall : size < 2 ^ 63
  · -- the word is the size itself, and only the sum can saturate
    rw [if_pos hsmall, i64_of_range (by omega) (by omega)]
    cases side with
    | false =>
        simp only [Bool.false_eq_true, if_false]
        have hsat := saturateI64_cases (v.currentPosition - size)
        generalize saturateI64 _ = position at hsat ⊢
        split <;> omega
    | true =>
        simp only [if_true]
        have hsat := saturateI64_cases (v.currentPosition + size)
        generalize saturateI64 _ = position at hsat ⊢
        split <;> omega
  · -- the word is negative: `size - 2 ^ 64`
    rw [if_neg hsmall, i64_of_ge (by omega) (by omega)]
    cases side with
    | false =>
        simp only [Bool.false_eq_true, if_false]
        have hsat := saturateI64_cases (v.currentPosition - (size - 2 ^ 64))
        generalize saturateI64 _ = position at hsat ⊢
        split_ifs <;> omega
    | true =>
        simp only [if_true]
        have hsat := saturateI64_cases (v.currentPosition + (size - 2 ^ 64))
        generalize saturateI64 _ = position at hsat ⊢
        by_cases hlow : v.currentPosition + size ≤ 2 ^ 63
        · rw [if_pos hlow, if_pos (by omega)]
          exact and_congr_right fun _ => by omega
        · rw [if_neg hlow, if_neg (by omega)]
          omega

/-! ## The verdict -/

/-- The band of the code: the floor saturates at zero, the ceiling at the largest
word, and no price is beyond either. -/
theorem withinBand_iff {price midPrice deviation : Nat} (hprice : price < 2 ^ 64) :
    WithinBand price midPrice deviation ↔
      ¬ price < midPrice - deviation ∧ ¬ price > min (midPrice + deviation) (2 ^ 64 - 1) := by
  constructor
  · rintro ⟨hfloor, hceiling⟩
    omega
  · rintro ⟨hfloor, hceiling⟩
    exact ⟨by omega, by omega⟩

/-- A narrowed band lies within the exact one. -/
theorem WithinBand.mono {price midPrice deviation deviation' : Nat}
    (h : WithinBand price midPrice deviation) (hle : deviation ≤ deviation') :
    WithinBand price midPrice deviation' :=
  ⟨by have := h.floor; omega, by have := h.ceiling; omega⟩

/-- **What `validate_order` does** on an active validator: it rejects, or it comes to
the position check, which rejects, accepts or panics. -/
theorem validateOrder_cases (overflowChecks : Bool) {v : PreTradeRiskValidator}
    (hactive : v.isActive = true) (side : BuySide) {price : Nat} (size midPrice : Nat)
    (hprice : price < 2 ^ 64) :
    (¬ (v.WithinSize price size ∧ WithinBand price midPrice
          (priceDeviation midPrice v.params.maxPriceDeviationBps % 2 ^ 64)) ∧
      ∃ result, result ≠ FatFingerResult.ok ∧
        v.validateOrder overflowChecks side price size midPrice = some (v.reject result)) ∨
    ((v.WithinSize price size ∧ WithinBand price midPrice
          (priceDeviation midPrice v.params.maxPriceDeviationBps % 2 ^ 64)) ∧
      v.validateOrder overflowChecks side price size midPrice =
        (absI64 overflowChecks (v.newPosition side size)).map fun position =>
          if position > v.params.maxPosition then
            v.reject (.notionalExceeded (v.newPosition side size).natAbs)
          else (.ok, v)) := by
  rw [withinBand_iff hprice]
  unfold validateOrder
  rw [if_neg (by rw [hactive]; exact Bool.noConfusion)]
  by_cases hmin : size < v.params.minOrderSize
  · exact Or.inl ⟨fun h => absurd h.1.min_le (not_le.mpr hmin), .sizeTooSmall size, nofun,
      if_pos hmin⟩
  rw [if_neg hmin]
  by_cases hmax : size > v.params.maxOrderSize
  · exact Or.inl ⟨fun h => absurd h.1.le_max (not_le.mpr hmax), .sizeTooLarge size, nofun,
      if_pos hmax⟩
  rw [if_neg hmax]
  by_cases hfloor : price <
      midPrice - priceDeviation midPrice v.params.maxPriceDeviationBps % 2 ^ 64
  · exact Or.inl ⟨fun h => h.2.1 hfloor, .priceTooLow price, nofun, if_pos hfloor⟩
  simp only [if_neg hfloor]
  by_cases hceiling : price >
      min (midPrice + priceDeviation midPrice v.params.maxPriceDeviationBps % 2 ^ 64) (2 ^ 64 - 1)
  · exact Or.inl ⟨fun h => h.2.2 hceiling, .priceTooHigh price, nofun, if_pos hceiling⟩
  simp only [if_neg hceiling]
  by_cases hnotional : price * size > v.params.maxNotional
  · exact Or.inl ⟨fun h => absurd h.1.notional (not_le.mpr hnotional),
      .notionalExceeded (price * size), nofun, if_pos hnotional⟩
  rw [if_neg hnotional]
  exact Or.inr ⟨⟨⟨not_lt.mp hmin, not_lt.mp hmax, not_lt.mp hnotional⟩, hfloor, hceiling⟩, rfl⟩

/-- **When the pre-trade check meets its specification**: for every active validator,
all parameters and positions and every order, in both kinds of build. -/
theorem meetsSpec_iff (overflowChecks : Bool) {v : PreTradeRiskValidator}
    (hactive : v.isActive = true) (hv : v.InRange) (side : BuySide) {price size midPrice : Nat}
    (hprice : price < 2 ^ 64) (hsize : size < 2 ^ 64) :
    v.MeetsSpec overflowChecks side price size midPrice ↔
      v.ChecksExactly overflowChecks side price size midPrice := by
  unfold MeetsSpec ChecksExactly
  rcases validateOrder_cases overflowChecks hactive side size midPrice hprice with
    ⟨hrejected, result, hresult, heq⟩ | ⟨⟨hwithin, hnarrow⟩, heq⟩
  · -- rejected before the position check, which is right unless the order passes
    rw [heq]
    have hleft : (∃ result' v', some (v.reject result) = some (result', v') ∧
          (result' = .ok ↔ v.PassesSpec side price size midPrice)) ↔
        ¬ v.PassesSpec side price size midPrice := by
      constructor
      · rintro ⟨result', v', h, hiff⟩ hpasses
        cases h
        exact hresult (hiff.mpr hpasses)
      · intro hnot
        exact ⟨result, _, rfl, iff_of_false hresult hnot⟩
    rw [hleft]
    constructor
    · intro hnot deviation hsize hband
      refine Or.inr ⟨fun hnarrow => hrejected ⟨hsize, hnarrow⟩, fun hposition => ?_⟩
      exact hnot ⟨hsize, hband, hposition⟩
    · intro h hpasses
      rcases h hpasses.withinSize hpasses.withinBand with ⟨hnarrow, -⟩ | ⟨-, hposition⟩
      · exact hrejected ⟨hpasses.withinSize, hnarrow⟩
      · exact hposition hpasses.withinPosition
  · -- the position check decides, and within the narrow band is within the exact one
    have hband := hnarrow.mono (Nat.mod_le _ _)
    have hpasses : v.PassesSpec side price size midPrice ↔ v.WithinPosition side size :=
      ⟨fun h => h.withinPosition, fun h => ⟨hwithin, hband, h⟩⟩
    simp only [heq, hpasses, hwithin, hband, hnarrow, forall_const, true_and, not_true, false_and,
      or_false]
    rw [← exists_position_iff hv side hsize]
    constructor
    · rintro ⟨result, v', h, hiff⟩
      obtain ⟨position, hposition, hresult⟩ := Option.map_eq_some_iff.mp h
      refine ⟨position, hposition, ?_⟩
      rw [← hiff]
      split at hresult
      · rename_i hgt
        cases hresult
        exact iff_of_false (not_le.mpr hgt) nofun
      · rename_i hle
        cases hresult
        exact iff_of_true (not_lt.mp hle) rfl
    · rintro ⟨position, hposition, hiff⟩
      rw [hposition, Option.map_some]
      by_cases hgt : position > v.params.maxPosition
      · rw [if_pos hgt]
        refine ⟨_, _, rfl, ?_⟩
        rw [← hiff]
        exact iff_of_false nofun (not_le.mpr hgt)
      · rw [if_neg hgt]
        refine ⟨_, _, rfl, ?_⟩
        rw [← hiff]
        exact iff_of_true rfl (not_lt.mp hgt)

/-! ## Reachable positions -/

/-- The position after a sequence of updates of a new validator. -/
def afterUpdates (params : PreTradeRiskParams) (updates : List (BuySide × Nat)) :
    PreTradeRiskValidator :=
  updates.foldl (fun v u => v.updatePosition u.1 u.2) (new params)

/-- **The positions that updates lead to are all words**, and nothing else of the
validator changes. -/
theorem exists_afterUpdates_iff (params : PreTradeRiskParams) (position : Int) :
    (∃ updates, afterUpdates params updates = { new params with currentPosition := position }) ↔
      -2 ^ 63 ≤ position ∧ position < 2 ^ 63 := by
  constructor
  · rintro ⟨updates, h⟩
    have hrange : ∀ updates : List (BuySide × Nat),
        -2 ^ 63 ≤ (afterUpdates params updates).currentPosition ∧
          (afterUpdates params updates).currentPosition < 2 ^ 63 := by
      intro updates
      -- the last update alone decides that the position is a word
      rcases updates.eq_nil_or_concat' with rfl | ⟨before, u, rfl⟩
      · show (-2 ^ 63 : Int) ≤ 0 ∧ (0 : Int) < 2 ^ 63
        omega
      · rw [afterUpdates, List.foldl_concat]
        exact i64_range _
    have := hrange updates
    rwa [h] at this
  · rintro ⟨hlower, hupper⟩
    refine ⟨[(true, u64 position)], ?_⟩
    have hposition : i64 ((new params).currentPosition + i64 (u64 position)) = position := by
      rw [show (new params).currentPosition = 0 from rfl]
      unfold i64 u64
      rw [Int.bmod_def, Int.bmod_def]
      omega
    rw [afterUpdates, List.foldl_cons, List.foldl_nil]
    unfold updatePosition
    simp only [if_true, hposition]

/-- Limits that let every size and notional through. -/
def wideLimits : PreTradeRiskParams := ⟨2 ^ 64 - 1, 0, 500, 2 ^ 128 - 1, 10⟩

/-- A buy of `2 ^ 64 - 1` is taken for a sell of one and accepted, against a position
limit of ten. -/
theorem not_forall_meetsSpec :
    ¬ ∀ (params : PreTradeRiskParams) (updates : List (BuySide × Nat)) (side : BuySide)
      (price size midPrice : Nat), price < 2 ^ 64 → size < 2 ^ 64 → midPrice < 2 ^ 64 →
      (afterUpdates params updates).MeetsSpec false side price size midPrice := by
  intro h
  obtain ⟨result, v', heq, hiff⟩ := h wideLimits [] true 1 (2 ^ 64 - 1) 1 (by decide) (by decide)
    (by decide)
  have haccepted : (afterUpdates wideLimits []).validateOrder false true 1 (2 ^ 64 - 1) 1 =
      some (.ok, afterUpdates wideLimits []) := by decide +kernel
  rw [haccepted] at heq
  cases heq
  have hposition := (hiff.mp rfl).withinPosition
  revert hposition
  unfold WithinPosition
  decide +kernel

/-- An ordinary order is checked exactly. -/
theorem meetsSpec_ordinary :
    (afterUpdates wideLimits []).MeetsSpec true true 1 5 1 ↔
      (afterUpdates wideLimits []).ChecksExactly true true 1 5 1 :=
  meetsSpec_iff true rfl ⟨by decide, by decide, by decide, by decide⟩ true (by decide) (by decide)

end PreTradeRiskValidator

end StopTrading.Risk
