import StopTrading.Library.FloatOps
import StopTrading.Library.MachineInt
import StopTrading.Library.Transition

/-!
# Iceberg orders

`create_iceberg` records an order with the size to display and the bounds for a random one.
Each time a child order was filled, `refresh_child_order` is told how much and sizes the next
child.  The order is shared and not changed by that: its executed quantity stays zero, and
what remains is the total less the last fill.  Fills before the last are forgotten
(`refreshChildOrder_created`).

So the next child is bounded by what truly remains only if nothing was filled before the last
fill, or if the display size that was drawn for it happens to fit
(`allSteps_withinTotal_iff`).

The random offset, the random delay and the position in the queue are inputs of a refresh, and
the floating-point operations are uninterpreted.  A draw from an empty range panics.  The
statistics are left out.

### What is load-bearing

`refresh_child_order` takes the order by reference, computes what remains as `total - executed -
filled`, and returns a child.  Nobody adds to `executed`.  So the quantity that truly remains is
known to the run only (`Filling.filled`), and every refresh is right about the first fill and
wrong about all fills before the last.

That a refresh can be right all the same is due to the draw: the display size is cut to what the
order thinks remains, and it may be small enough for what truly does.  `Fits` is this, and it is
exact in each step because a child that is too large is in `WithinTotal` at once.

Panics are results (`Refreshed`), not excluded.  A refresh that panics returns no child, and does
harm only if the fills have reached the total and it should have said so.
-/

namespace StopTrading.Execution.Iceberg

open MachineInt Transition

universe u

variable {F : Type u}

/-- `Side`. -/
inductive Side where
  | buy | sell
  deriving Repr, DecidableEq

/-- `IcebergError`. -/
inductive IcebergError where
  | invalidDisplayQuantity
  | orderFullyExecuted
  | orderNotFound
  | exchangeError (message : String)
  deriving Repr, DecidableEq

/-- `IcebergOrder`. -/
structure IcebergOrder where
  orderId : String
  parentId : String
  symbol : String
  side : Side
  totalQuantity : Int
  displayQuantity : Int
  minDisplayQty : Int
  maxDisplayQty : Int
  remainingQuantity : Int
  executedQuantity : Int
  limitPrice : Int
  deriving Repr, DecidableEq

/-- `IcebergConfig`. -/
structure IcebergConfig (F : Type u) where
  enableTimeJitter : Bool
  jitterRangeMs : Nat
  enableSizeRandomization : Bool
  randomizationPct : F
  minRefreshIntervalMs : Nat
  queueRefreshThreshold : Nat
  deriving Repr, DecidableEq

/-- `ChildOrderSpec`; the delay in milliseconds. -/
structure ChildOrderSpec where
  symbol : String
  side : Side
  price : Int
  quantity : Int
  displayQty : Option Int
  icebergParent : Option String
  delayBeforeSubmit : Nat
  preservePriority : Bool
  deriving Repr, DecidableEq

/-- `IcebergConfig::default`. -/
def IcebergConfig.default (ops : FloatOps F) : IcebergConfig F where
  enableTimeJitter := true
  jitterRangeMs := 500
  enableSizeRandomization := true
  randomizationPct := ops.lit (1 / 5)
  minRefreshIntervalMs := 100
  queueRefreshThreshold := 10

/-- `create_iceberg`. -/
def createIceberg (ops : FloatOps F) (config : IcebergConfig F) (orderId symbol : String)
    (side : Side) (totalQuantity limitPrice displayQty : Int) :
    Except IcebergError IcebergOrder :=
  if displayQty ≤ 0 ∨ displayQty > totalQuantity then .error .invalidDisplayQuantity
  else
    let minDisplay := ops.toI64
      (ops.mul (ops.ofI64 displayQty) (ops.sub (ops.lit 1) config.randomizationPct))
    let maxDisplay := ops.toI64
      (ops.mul (ops.ofI64 displayQty) (ops.add (ops.lit 1) config.randomizationPct))
    .ok
      { orderId := orderId
        parentId := orderId
        symbol := symbol
        side := side
        totalQuantity := totalQuantity
        displayQuantity := displayQty
        minDisplayQty := max minDisplay 1
        maxDisplayQty := maxDisplay
        remainingQuantity := totalQuantity
        executedQuantity := 0
        limitPrice := limitPrice }

/-- What a refresh reads that is not in the order: the offset and the delay it draws, and the
position in the queue. -/
structure Draw (F : Type u) where
  offset : F
  jitter : Nat
  queuePos : Nat
  deriving Repr, DecidableEq

/-- The display size of the next child before it is cut to what remains.  A draw from an empty
range and a clamp with crossed bounds panic. -/
def displaySize (ops : FloatOps F) (config : IcebergConfig F) (order : IcebergOrder)
    (draw : Draw F) : Option Int :=
  if config.enableSizeRandomization = false then some order.displayQuantity
  else
    let baseQty := ops.ofI64 order.displayQuantity
    let range := ops.ofI64 (i64 (order.maxDisplayQty - order.minDisplayQty))
    if ops.lt (ops.div (ops.neg range) (ops.lit 2)) (ops.div range (ops.lit 2)) = true ∧
        order.minDisplayQty ≤ order.maxDisplayQty then
      some (max order.minDisplayQty
        (min (ops.toI64 (ops.add baseQty draw.offset)) order.maxDisplayQty))
    else none

/-- `calculate_next_display_qty`. -/
def calculateNextDisplayQty (ops : FloatOps F) (config : IcebergConfig F) (order : IcebergOrder)
    (remaining : Int) (draw : Draw F) : Option Int :=
  (displaySize ops config order draw).map fun size =>
    if config.enableSizeRandomization = false then min size remaining
    else max (min size remaining) 1

/-- `calculate_refresh_delay`; drawing from an empty range panics. -/
def calculateRefreshDelay (config : IcebergConfig F) (draw : Draw F) : Option Nat :=
  if config.enableTimeJitter = false then some config.minRefreshIntervalMs
  else if config.jitterRangeMs = 0 then none
  else some ((config.minRefreshIntervalMs + draw.jitter) % 2 ^ 64)

/-- How a refresh ends. -/
inductive Refreshed where
  | child (spec : ChildOrderSpec)
  | rejected (error : IcebergError)
  | panicked
  deriving Repr, DecidableEq

/-- `refresh_child_order`. -/
def refreshChildOrder (ops : FloatOps F) (config : IcebergConfig F) (order : IcebergOrder)
    (filledQty : Int) (draw : Draw F) : Refreshed :=
  let newExecuted := saturateI64 (order.executedQuantity + filledQty)
  let remaining := i64 (order.totalQuantity - newExecuted)
  if remaining ≤ 0 then .rejected .orderFullyExecuted
  else
    match calculateNextDisplayQty ops config order remaining draw,
        calculateRefreshDelay config draw with
    | some displayQty, some delay =>
        .child
          { symbol := order.symbol
            side := order.side
            price := order.limitPrice
            quantity := displayQty
            displayQty := some displayQty
            icebergParent := some order.orderId
            delayBeforeSubmit := delay
            preservePriority := decide (draw.queuePos < config.queueRefreshThreshold) }
    | _, _ => .panicked

/-! ## One refresh -/

/-- What `create_iceberg` guarantees of an order. -/
structure Created (order : IcebergOrder) : Prop where
  /-- nothing is executed yet -/
  executed : order.executedQuantity = 0
  /-- something is displayed -/
  display : 0 < order.displayQuantity
  /-- no more than there is -/
  displayLe : order.displayQuantity ≤ order.totalQuantity
  /-- and never nothing -/
  minDisplay : 1 ≤ order.minDisplayQty

/-- An order that is created has what the refreshes rely on. -/
theorem createIceberg_created {ops : FloatOps F} {config : IcebergConfig F}
    {orderId symbol : String} {side : Side} {totalQuantity limitPrice displayQty : Int}
    {order : IcebergOrder}
    (h : createIceberg ops config orderId symbol side totalQuantity limitPrice displayQty =
      .ok order) : Created order ∧ order.totalQuantity = totalQuantity := by
  unfold createIceberg at h
  split_ifs at h with hinvalid
  obtain rfl : _ = order := Except.ok.inj h
  rw [not_or, Int.not_le, Int.not_lt] at hinvalid
  exact ⟨⟨rfl, hinvalid.1, hinvalid.2, le_max_right _ _⟩, rfl⟩

/-- A display size is positive. -/
theorem Created.displaySize_pos {ops : FloatOps F} {config : IcebergConfig F}
    {order : IcebergOrder} (h : Created order) {draw : Draw F} {size : Int}
    (hsize : displaySize ops config order draw = some size) : 1 ≤ size := by
  unfold displaySize at hsize
  dsimp only at hsize
  split_ifs at hsize
  · obtain rfl : order.displayQuantity = size := Option.some.inj hsize
    exact h.display
  · obtain rfl : _ = size := Option.some.inj hsize
    exact h.minDisplay.trans (le_max_left _ _)

/-- **What a refresh does**: it rejects a fill of the total, and otherwise the next child is
what was drawn for it, cut to the total less this one fill. -/
theorem refreshChildOrder_created (ops : FloatOps F) (config : IcebergConfig F)
    {order : IcebergOrder} (h : Created order) (bound : order.totalQuantity < 2 ^ 63)
    {filledQty : Int} (positive : 0 < filledQty) (le : filledQty ≤ order.totalQuantity)
    (draw : Draw F) :
    (filledQty = order.totalQuantity ∧
      refreshChildOrder ops config order filledQty draw = .rejected .orderFullyExecuted) ∨
    (filledQty < order.totalQuantity ∧
      match displaySize ops config order draw, calculateRefreshDelay config draw with
      | some size, some _ => ∃ spec,
          refreshChildOrder ops config order filledQty draw = .child spec ∧
            spec.quantity = min size (order.totalQuantity - filledQty)
      | _, _ => refreshChildOrder ops config order filledQty draw = .panicked) := by
  -- the order says that nothing was executed before, whatever was
  have hexecuted : saturateI64 (order.executedQuantity + filledQty) = filledQty := by
    rw [h.executed, Int.zero_add]
    rcases saturateI64_cases filledQty with hcase | hcase | hcase <;> omega
  have hremaining : i64 (order.totalQuantity - filledQty) = order.totalQuantity - filledQty :=
    i64_of_range (by omega) (by omega)
  rcases eq_or_lt_of_le le with heq | hlt
  · refine Or.inl ⟨heq, ?_⟩
    simp only [refreshChildOrder, hexecuted, hremaining]
    rw [if_pos (by omega)]
  · refine Or.inr ⟨hlt, ?_⟩
    have hleft : ¬ order.totalQuantity - filledQty ≤ 0 := by omega
    simp only [refreshChildOrder, hexecuted, hremaining, if_neg hleft, calculateNextDisplayQty]
    cases hsize : displaySize ops config order draw with
    | none => rfl
    | some size =>
        have hpos := h.displaySize_pos hsize
        cases calculateRefreshDelay config draw with
        | none => rfl
        | some delay =>
            refine ⟨_, rfl, ?_⟩
            dsimp only
            split_ifs
            · rfl
            · -- both bounds are positive, so the last cut changes nothing
              exact max_eq_left (by omega)

/-! ## Runs -/

/-- An iceberg that is being filled: the sum of its fills and the quantity of the child that
is out. -/
structure Filling where
  order : IcebergOrder
  filled : Int
  child : Int
  deriving Repr, DecidableEq

/-- A child is reported as filled by a quantity. -/
structure Report (F : Type u) where
  filledQty : Int
  draw : Draw F
  deriving Repr, DecidableEq

namespace Filling

/-- The quantity of the child a refresh returned, zero if it returned none. -/
def childQuantity : Refreshed → Int
  | .child spec => spec.quantity
  | .rejected _ | .panicked => 0

/-- One call of `refresh_child_order`. -/
def step (ops : FloatOps F) (config : IcebergConfig F) (x : Filling) (r : Report F) :
    Option Filling :=
  some
    { x with
      filled := x.filled + r.filledQty
      child := childQuantity (refreshChildOrder ops config x.order r.filledQty r.draw) }

/-- What is reported of a child is positive and at most its quantity. -/
def Valid (x : Filling) (r : Report F) (_ : Filling) : Prop :=
  0 < r.filledQty ∧ r.filledQty ≤ x.child

instance (x : Filling) (r : Report F) (x' : Filling) : Decidable (Valid x r x') :=
  inferInstanceAs (Decidable (_ ∧ _))

/-- **The total is respected**: the fills with the new child do not exceed it, and once the
fills reach it the order is fully executed. -/
def WithinTotal (ops : FloatOps F) (config : IcebergConfig F) (x : Filling) (r : Report F)
    (_ : Filling) : Prop :=
  (∀ spec, refreshChildOrder ops config x.order r.filledQty r.draw = .child spec →
    x.filled + r.filledQty + spec.quantity ≤ x.order.totalQuantity) ∧
  (x.filled + r.filledQty = x.order.totalQuantity →
    refreshChildOrder ops config x.order r.filledQty r.draw = .rejected .orderFullyExecuted)

/-- It is the first fill, or the display size drawn for the next child fits in what truly
remains after it; if a draw panics, something remains. -/
def Fits (ops : FloatOps F) (config : IcebergConfig F) (x : Filling) (r : Report F)
    (_ : Filling) : Prop :=
  x.filled = 0 ∨
    match displaySize ops config x.order r.draw, calculateRefreshDelay config r.draw with
    | some size, some _ => x.filled + r.filledQty + size ≤ x.order.totalQuantity
    | _, _ => x.filled + r.filledQty ≠ x.order.totalQuantity

instance (ops : FloatOps F) (config : IcebergConfig F) (x : Filling) (r : Report F)
    (x' : Filling) : Decidable (Fits ops config x r x') :=
  match hsize : displaySize ops config x.order r.draw,
      hdelay : calculateRefreshDelay config r.draw with
  | some size, some _ => decidable_of_iff
      (x.filled = 0 ∨ x.filled + r.filledQty + size ≤ x.order.totalQuantity)
      (by simp only [Fits, hsize, hdelay])
  | some _, none => decidable_of_iff
      (x.filled = 0 ∨ x.filled + r.filledQty ≠ x.order.totalQuantity)
      (by simp only [Fits, hsize, hdelay])
  | none, _ => decidable_of_iff
      (x.filled = 0 ∨ x.filled + r.filledQty ≠ x.order.totalQuantity)
      (by simp only [Fits, hsize])

/-- The fills and the child that is out are within the total. -/
structure Inv (x : Filling) : Prop where
  /-- the order is as it was created -/
  created : Created x.order
  /-- its total is a word -/
  bound : x.order.totalQuantity < 2 ^ 63
  /-- fills are not negative -/
  filled : 0 ≤ x.filled
  /-- and with the child within the total -/
  within : x.filled + x.child ≤ x.order.totalQuantity

/-- A panic does no harm unless the fills reach the total. -/
theorem forgotten_iff {filled filledQty totalQuantity : Int} (hlt : filledQty < totalQuantity) :
    (filled + filledQty = totalQuantity → False) ↔
      filled = 0 ∨ filled + filledQty ≠ totalQuantity := by
  constructor
  · exact Or.inr
  · rintro (rfl | hne) hfull
    · omega
    · exact hne hfull

/-- A refresh respects the total exactly when the fill is the first or the drawn size fits. -/
theorem withinTotal_iff {ops : FloatOps F} {config : IcebergConfig F} {x x' : Filling}
    {r : Report F} (inv : Inv x) (valid : Valid x r x') :
    WithinTotal ops config x r x' ↔ Fits ops config x r x' := by
  obtain ⟨hpos, hle⟩ := valid
  have hwithin := inv.within
  have hfilled := inv.filled
  unfold WithinTotal Fits
  rcases refreshChildOrder_created ops config inv.created inv.bound hpos (by omega)
    r.draw with ⟨heq, hresult⟩ | ⟨hlt, hresult⟩
  · -- the fill of the total is the first one
    refine iff_of_true ⟨fun spec hspec => ?_, fun _ => hresult⟩ (Or.inl (by omega))
    rw [hresult] at hspec
    exact absurd hspec (by simp)
  · cases hsize : displaySize ops config x.order r.draw with
    | none =>
        simp only [hsize] at hresult
        simp only [hresult, reduceCtorEq, false_implies, implies_true, true_and]
        exact forgotten_iff hlt
    | some size =>
        cases hdelay : calculateRefreshDelay config r.draw with
        | none =>
            simp only [hsize, hdelay] at hresult
            simp only [hresult, reduceCtorEq, false_implies, implies_true, true_and]
            exact forgotten_iff hlt
        | some delay =>
            simp only [hsize, hdelay] at hresult
            obtain ⟨spec, hchild, hquantity⟩ := hresult
            have hsizePos := inv.created.displaySize_pos hsize
            simp only [hchild, Refreshed.child.injEq, forall_eq', hquantity, reduceCtorEq,
              imp_false]
            omega

/-- A refresh that respects the total keeps the fills within it. -/
theorem inv_step {ops : FloatOps F} {config : IcebergConfig F} {x x' : Filling}
    {r : Report F} (inv : Inv x) (hstep : x.step ops config r = some x') (valid : Valid x r x')
    (within : WithinTotal ops config x r x') : Inv x' := by
  obtain rfl : _ = x' := Option.some.inj hstep
  obtain ⟨hpos, hle⟩ := valid
  have hfilled := inv.filled
  have htotal := inv.within
  refine ⟨inv.created, inv.bound, ?_, ?_⟩
  · exact Int.add_nonneg hfilled hpos.le
  · dsimp only
    cases hresult : refreshChildOrder ops config x.order r.filledQty r.draw with
    | child spec => exact within.1 spec hresult
    | rejected error =>
        rw [childQuantity]
        omega
    | panicked =>
        rw [childQuantity]
        omega

/-- **Which runs respect the total**: those in which every fill is the first or is followed by
a draw that fits.  The first child may be of any quantity up to the total. -/
theorem allSteps_withinTotal_iff (ops : FloatOps F) (config : IcebergConfig F)
    (orderId symbol : String) (side : Side) (totalQuantity limitPrice displayQty : Int)
    (order : IcebergOrder)
    (created : createIceberg ops config orderId symbol side totalQuantity limitPrice displayQty =
      .ok order)
    (bound : totalQuantity < 2 ^ 63) (child : Int) (hchild : child ≤ totalQuantity)
    (reports : List (Report F))
    (valid : AllSteps (step ops config) Valid ⟨order, 0, child⟩ reports) :
    AllSteps (step ops config) (WithinTotal ops config) ⟨order, 0, child⟩ reports ↔
      AllSteps (step ops config) (Fits ops config) ⟨order, 0, child⟩ reports := by
  obtain ⟨hcreated, htotal⟩ := createIceberg_created created
  have hinv : Inv ⟨order, 0, child⟩ := by
    refine ⟨hcreated, htotal ▸ bound, le_rfl, ?_⟩
    rw [htotal]
    exact (Int.zero_add child).trans_le hchild
  exact allSteps_iff_of_step_iff
    (fun _ _ _ (inv : Inv _) hstep hvalid hwithin => inv_step inv hstep hvalid hwithin)
    (fun _ _ _ inv _ hvalid => withinTotal_iff inv hvalid) reports hinv valid

/-- An iceberg of 150 that displays 100, with the default configuration. -/
def sample : IcebergOrder where
  orderId := "ORD001"
  parentId := "ORD001"
  symbol := "BTCUSDT"
  side := .buy
  totalQuantity := 150
  displayQuantity := 100
  minDisplayQty := 80
  maxDisplayQty := 120
  remainingQuantity := 150
  executedQuantity := 0
  limitPrice := 50000

/-- A fill, and draws that change nothing. -/
def sampleReport (filledQty : Int) : Report Rat := ⟨filledQty, 0, 0, 0⟩

/-- Two small fills of the first child: behind the second one 110 truly remain, and the next child
still shows 100 of them. -/
theorem allSteps_withinTotal_iff_sample :
    (Transition.run (step .exact (.default .exact)) ⟨sample, 0, 100⟩
        [sampleReport 20, sampleReport 20]).isSome = true ∧
      AllSteps (step .exact (.default .exact)) (WithinTotal .exact (.default .exact))
        ⟨sample, 0, 100⟩ [sampleReport 20, sampleReport 20] :=
  ⟨by decide +kernel, (allSteps_withinTotal_iff .exact (.default .exact) "ORD001" "BTCUSDT" .buy 150
    50000 100 sample (by decide +kernel) (by decide) 100 (by decide)
    [sampleReport 20, sampleReport 20] (by decide +kernel)).mpr (by decide +kernel)⟩

/-- Fills of 100 and 50 reach the total, and the refresh after them returns a child of 100. -/
theorem not_forall_withinTotal :
    ¬ ∀ reports : List (Report Rat),
      AllSteps (step .exact (.default .exact)) Valid ⟨sample, 0, 100⟩ reports →
      AllSteps (step .exact (.default .exact)) (WithinTotal .exact (.default .exact))
        ⟨sample, 0, 100⟩ reports := by
  intro h
  have hsteps := h [sampleReport 100, sampleReport 50] (by decide +kernel)
  obtain ⟨-, ⟨-, hfull⟩, -⟩ := hsteps
  exact absurd (hfull (by decide +kernel)) (by decide +kernel)

end Filling

end StopTrading.Execution.Iceberg
