import StopTrading.Library.KeyedTotal
import StopTrading.Library.Transition
import Mathlib.Algebra.Order.BigOperators.Group.List
import Mathlib.Algebra.Order.Ring.Rat
import Mathlib.Tactic.Linarith

/-!
# Positions and their margin

`PortfolioModule` holds multi-leg positions by id and a counter `margin_used`, in
thousandths, which the admission test of `update_position` and the report of
`get_margin_state` read.  Amounts are exact rationals.

Nothing writes the counter.  So the admission test compares each position on its own
with the maximum (`allStates_heldMargin_le`), the report is zero, and the two are right exactly
as long as nothing is held (`marginCap_iff`).

### What is load-bearing

The counter is read in two places and written in none, so that `marginUsed = 0` is an invariant.
With it the admission test says of each position alone that it is within the maximum (`Inv`), and
this is all that the test ensures: the bound on what is held grows with the number of positions
(`heldMargin_le`).

The promise fails with the first position that is admitted: it needs some margin, and the report
says zero.  This is why `marginCap_iff` speaks of no admission at all rather than of a bound on
the sum.

### Design decisions

The hedger and the scalper are kept as the positions that they are told about.  What they make of
them does not come back to the module, whose summary adds up its own positions.
-/

namespace StopTrading.Portfolio

open Transition KeyedTotal

/-- `LegType`. -/
inductive LegType where
  | spot
  | perp
  | call
  | put
  | future
  deriving Repr, DecidableEq

/-- `LegSide`. -/
inductive LegSide where
  | long
  | short
  deriving Repr, DecidableEq

/-- `PositionLeg`. -/
structure PositionLeg where
  legType : LegType
  side : LegSide
  quantity : ℚ
  deriving Repr, DecidableEq

/-- The quantity with its sign. -/
def PositionLeg.signedQuantity (l : PositionLeg) : ℚ :=
  l.quantity * if l.side = .long then 1 else -1

/-- `MultiLegPosition`. -/
structure MultiLegPosition where
  id : String
  symbol : String
  legs : List PositionLeg
  netDelta : ℚ
  netGamma : ℚ
  netTheta : ℚ
  netVega : ℚ
  totalMarginRequired : ℚ
  pnlUnrealized : ℚ
  deriving Repr, DecidableEq

/-- `PositionDelta`. -/
structure PositionDelta where
  symbol : String
  spotPosition : ℚ
  perpPosition : ℚ
  optionsDelta : ℚ
  totalDelta : ℚ
  notionalValue : ℚ
  deriving Repr, DecidableEq

/-- `PositionGamma`. -/
structure PositionGamma where
  symbol : String
  optionsGamma : ℚ
  spotPosition : ℚ
  perpPosition : ℚ
  netGamma : ℚ
  gammaPnlSensitivity : ℚ
  deriving Repr, DecidableEq

namespace MultiLegPosition

/-- The signed quantity in legs of some types. -/
def legSum (p : MultiLegPosition) (types : List LegType) : ℚ :=
  ((p.legs.filter fun l => l.legType ∈ types).map PositionLeg.signedQuantity).sum

/-- What `update_position` tells the delta hedger. -/
def delta (p : MultiLegPosition) : PositionDelta where
  symbol := p.symbol
  spotPosition := p.legSum [.spot]
  perpPosition := p.legSum [.perp]
  optionsDelta := p.netDelta - p.legSum [.spot, .perp]
  totalDelta := p.netDelta
  notionalValue := p.totalMarginRequired

/-- What `update_position` tells the gamma scalper. -/
def gamma (p : MultiLegPosition) : PositionGamma where
  symbol := p.symbol
  optionsGamma := p.netGamma
  spotPosition := 0
  perpPosition := 0
  netGamma := p.netGamma
  gammaPnlSensitivity := p.pnlUnrealized

end MultiLegPosition

/-- `PortfolioConfig`. -/
structure PortfolioConfig where
  maxTotalMargin : ℚ
  marginBufferPct : ℚ
  deriving Repr, DecidableEq

/-- `PortfolioConfig::default`. -/
def PortfolioConfig.default : PortfolioConfig where
  maxTotalMargin := 10000000
  marginBufferPct := 2 / 10

/-- `MarginState`. -/
structure MarginState where
  totalMarginUsed : ℚ
  totalMarginAvailable : ℚ
  marginBySymbol : AList fun _ : String => ℚ
  maintenanceMargin : ℚ
  marginCallThreshold : ℚ
  isMarginCall : Bool

/-- `PortfolioSummary`. -/
structure PortfolioSummary where
  totalDelta : ℚ
  totalGamma : ℚ
  totalTheta : ℚ
  totalVega : ℚ
  totalPnl : ℚ
  totalMarginUsed : ℚ
  positionCount : Nat
  deriving Repr, DecidableEq

/-- `PortfolioModule`, with the positions of its hedger and its scalper. -/
structure PortfolioModule where
  config : PortfolioConfig
  hedgerPositions : AList fun _ : String => PositionDelta
  scalperPositions : AList fun _ : String => PositionGamma
  positions : AList fun _ : String => MultiLegPosition
  marginUsed : Nat
  halted : Bool

namespace PortfolioModule

/-- `new`. -/
def new (config : PortfolioConfig) : PortfolioModule where
  config := config
  hedgerPositions := ∅
  scalperPositions := ∅
  positions := ∅
  marginUsed := 0
  halted := false

/-- `update_position`. -/
def updatePosition (m : PortfolioModule) (position : MultiLegPosition) :
    PortfolioModule × Except String Unit :=
  if m.halted then (m, .error "Portfolio module is halted")
  else
    let currentMargin : ℚ := m.marginUsed / 1000
    if currentMargin + position.totalMarginRequired > m.config.maxTotalMargin then
      (m, .error "Margin limit exceeded")
    else
      ({ m with
          hedgerPositions := m.hedgerPositions.insert position.symbol position.delta
          scalperPositions := m.scalperPositions.insert position.symbol position.gamma
          positions := m.positions.insert position.id position },
        .ok ())

/-- `remove_position`. -/
def removePosition (m : PortfolioModule) (positionId : String) :
    PortfolioModule × Option MultiLegPosition :=
  ({ m with positions := m.positions.erase positionId }, m.positions.lookup positionId)

/-- `get_margin_state`. -/
def getMarginState (m : PortfolioModule) : MarginState :=
  let marginUsed : ℚ := m.marginUsed / 1000
  let marginCall := marginUsed * (1 + m.config.marginBufferPct)
  { totalMarginUsed := marginUsed
    totalMarginAvailable := m.config.maxTotalMargin - marginUsed
    marginBySymbol := m.positions.entries.foldl
      (fun bySymbol e => bySymbol.insert e.2.symbol
        ((bySymbol.lookup e.2.symbol).getD 0 + e.2.totalMarginRequired)) ∅
    maintenanceMargin := marginUsed * (1 / 2)
    marginCallThreshold := marginCall
    isMarginCall := marginCall < marginUsed }

/-- `get_portfolio_summary`. -/
def getPortfolioSummary (m : PortfolioModule) : PortfolioSummary where
  totalDelta := total (·.netDelta) m.positions
  totalGamma := total (·.netGamma) m.positions
  totalTheta := total (·.netTheta) m.positions
  totalVega := total (·.netVega) m.positions
  totalPnl := total (·.pnlUnrealized) m.positions
  totalMarginUsed := total (·.totalMarginRequired) m.positions
  positionCount := m.positions.entries.length

/-- `halt`, for the module itself. -/
def halt (m : PortfolioModule) : PortfolioModule := { m with halted := true }

/-- `resume`, for the module itself. -/
def resume (m : PortfolioModule) : PortfolioModule := { m with halted := false }

end PortfolioModule

/-- A call on the module. -/
inductive PortfolioCall where
  | updatePosition (position : MultiLegPosition)
  | removePosition (positionId : String)
  | halt
  | resume
  deriving Repr, DecidableEq

namespace PortfolioModule

/-- One call. -/
def call (m : PortfolioModule) : PortfolioCall → PortfolioModule
  | .updatePosition position => (m.updatePosition position).1
  | .removePosition positionId => (m.removePosition positionId).1
  | .halt => m.halt
  | .resume => m.resume

/-- Every call is possible. -/
def step (m : PortfolioModule) (c : PortfolioCall) : Option PortfolioModule := some (m.call c)

/-! ## What the module promises -/

/-- The margin of the positions held. -/
def heldMargin (m : PortfolioModule) : ℚ := total (·.totalMarginRequired) m.positions

/-- **The margin is capped, and reported as it is.** -/
structure Capped (m : PortfolioModule) : Prop where
  /-- What is held is within the maximum, -/
  le_max : m.heldMargin ≤ m.config.maxTotalMargin
  /-- and the report says how much it is. -/
  reported : m.getMarginState.totalMarginUsed = m.heldMargin

/-- **A refused update leaves the positions as they are.** -/
def RefusalKeeps (m : PortfolioModule) (c : PortfolioCall) (m' : PortfolioModule) : Prop :=
  ∀ position error, c = .updatePosition position →
    (m.updatePosition position).2 = .error error →
      m'.positions = m.positions ∧ m'.heldMargin = m.heldMargin

/-- **An update that is not met by a halted module is too large** to be held at all. -/
def OverMax (m : PortfolioModule) (c : PortfolioCall) (_ : PortfolioModule) : Prop :=
  ∀ position, c = .updatePosition position → m.halted = false →
    m.config.maxTotalMargin < position.totalMarginRequired

/-! ## What a call does -/

/-- **An update** by its outcome, while the counter is zero. -/
theorem updatePosition_cases {m : PortfolioModule} (unused : m.marginUsed = 0)
    (position : MultiLegPosition) :
    ((m.halted = true ∨ m.config.maxTotalMargin < position.totalMarginRequired) ∧
        (m.updatePosition position).1 = m) ∨
      (m.halted = false ∧ position.totalMarginRequired ≤ m.config.maxTotalMargin ∧
        (m.updatePosition position).2 = .ok () ∧
        (m.updatePosition position).1.positions = m.positions.insert position.id position ∧
        (m.updatePosition position).1.config = m.config ∧
        (m.updatePosition position).1.marginUsed = 0) := by
  unfold updatePosition
  split
  · rename_i hhalted
    exact Or.inl ⟨Or.inl hhalted, rfl⟩
  · rename_i hrunning
    have hzero : ((m.marginUsed : ℚ) / 1000) = 0 := by simp [unused]
    simp only [hzero, zero_add]
    split
    · rename_i hlarge
      exact Or.inl ⟨Or.inr hlarge, rfl⟩
    · rename_i hfits
      exact Or.inr ⟨Bool.not_eq_true _ ▸ hrunning, not_lt.mp hfits, rfl, rfl, rfl, unused⟩

/-- A refusal changes nothing at all. -/
theorem updatePosition_error {m : PortfolioModule} {position : MultiLegPosition} {error : String}
    (h : (m.updatePosition position).2 = .error error) : (m.updatePosition position).1 = m := by
  unfold updatePosition at h ⊢
  split
  · rfl
  · rename_i hrunning
    rw [if_neg hrunning] at h
    dsimp only at h ⊢
    split
    · rfl
    · rename_i hfits
      rw [if_neg hfits] at h
      cases h

/-- **A call** that is refused keeps the positions. -/
theorem refusalKeeps_call {m m' : PortfolioModule} {c : PortfolioCall}
    (hstep : step m c = some m') : RefusalKeeps m c m' := by
  rintro position error rfl h
  cases hstep
  have hsame := updatePosition_error h
  show (m.updatePosition position).1.positions = m.positions ∧ _
  exact ⟨congrArg _ hsame, congrArg heldMargin hsame⟩

/-! ## What the admission test ensures -/

/-- **The invariant**: nothing was added to the counter, and each position was admitted on
its own. -/
structure Inv (config : PortfolioConfig) (m : PortfolioModule) : Prop where
  /-- The configuration is never changed. -/
  config_eq : m.config = config
  /-- The counter is never written. -/
  unused : m.marginUsed = 0
  /-- Each position was compared with the maximum by itself. -/
  admitted : ∀ id position, m.positions.lookup id = some position →
    position.totalMarginRequired ≤ config.maxTotalMargin

/-- A new module holds nothing and has counted nothing. -/
theorem inv_new (config : PortfolioConfig) : Inv config (new config) :=
  ⟨rfl, rfl, fun _ _ hq => nomatch hq⟩

/-- **A call** adds at most a position that passes the test. -/
theorem inv_call {config : PortfolioConfig} {m m' : PortfolioModule} {c : PortfolioCall}
    (inv : Inv config m) (hstep : step m c = some m') : Inv config m' := by
  cases hstep
  cases c with
  | updatePosition position =>
      show Inv config (m.updatePosition position).1
      obtain ⟨-, hsame⟩ | ⟨-, hfits, -, hpositions, hconfig, hunused⟩ :=
        updatePosition_cases inv.unused position
      · rw [hsame]
        exact inv
      · refine ⟨hconfig.trans inv.config_eq, hunused, fun id q hq => ?_⟩
        rw [hpositions] at hq
        by_cases hid : id = position.id
        · subst hid
          rw [AList.lookup_insert] at hq
          cases hq
          exact inv.config_eq ▸ hfits
        · rw [AList.lookup_insert_ne hid] at hq
          exact inv.admitted id q hq
  | removePosition positionId =>
      refine ⟨inv.config_eq, inv.unused, fun id q hq => ?_⟩
      change (m.positions.erase positionId).lookup id = some q at hq
      by_cases hid : id = positionId
      · rw [hid, AList.lookup_erase] at hq
        cases hq
      · rw [AList.lookup_erase_ne hid] at hq
        exact inv.admitted id q hq
  | halt | resume => exact ⟨inv.config_eq, inv.unused, inv.admitted⟩

/-- **Each position is within the maximum**, so their sum is within the maximum times
their number. -/
theorem heldMargin_le {config : PortfolioConfig} {m : PortfolioModule} (inv : Inv config m) :
    m.heldMargin ≤ m.getPortfolioSummary.positionCount * config.maxTotalMargin := by
  have hle := List.sum_le_card_nsmul (m.positions.entries.map fun e => e.2.totalMarginRequired)
    config.maxTotalMargin (by
      intro margin hmem
      obtain ⟨⟨id, position⟩, hentry, rfl⟩ := List.mem_map.mp hmem
      exact inv.admitted id position (AList.mem_lookup_iff.mpr hentry))
  simpa [heldMargin, total, getPortfolioSummary] using hle

/-- The bound holds in every state of every run. -/
theorem allStates_heldMargin_le (config : PortfolioConfig) (calls : List PortfolioCall) :
    AllStates step
      (fun m => m.heldMargin ≤ m.getPortfolioSummary.positionCount * config.maxTotalMargin)
      (new config) calls := by
  have inv : AllStates step (Inv config) (new config) calls :=
    allStates_of_invariant (fun _ _ _ inv hstep => inv_call inv hstep) (inv_new config) calls
  exact inv.imp fun _ h => heldMargin_le h

/-! ## Runs -/

/-- Nothing is held. -/
structure Vacant (m : PortfolioModule) : Prop where
  unused : m.marginUsed = 0
  positions : m.positions = ∅
  /-- Zero is within the maximum. -/
  nonneg : 0 ≤ m.config.maxTotalMargin

/-- A new module is vacant. -/
theorem vacant_new {config : PortfolioConfig} (nonneg : 0 ≤ config.maxTotalMargin) :
    (new config).Vacant :=
  ⟨rfl, rfl, nonneg⟩

/-- While nothing is held, the report of zero is right. -/
theorem Vacant.capped {m : PortfolioModule} (h : m.Vacant) : m.Capped := by
  have hheld : m.heldMargin = 0 := by rw [heldMargin, h.positions, total_empty]
  refine ⟨hheld ▸ h.nonneg, ?_⟩
  rw [hheld]
  simp [getMarginState, h.unused]

/-- A call that admits no position leaves nothing held. -/
theorem Vacant.call {m m' : PortfolioModule} {c : PortfolioCall} (h : m.Vacant)
    (hstep : step m c = some m') (hover : m.OverMax c m') : m'.Vacant := by
  cases hstep
  cases c with
  | updatePosition position =>
      obtain ⟨-, hsame⟩ | ⟨hrunning, hfits, -⟩ := updatePosition_cases h.unused position
      · show Vacant (m.updatePosition position).1
        rw [hsame]
        exact h
      · exact absurd (hover position rfl hrunning) (not_lt.mpr hfits)
  | removePosition positionId =>
      refine ⟨h.unused, ?_, h.nonneg⟩
      show m.positions.erase positionId = ∅
      rw [h.positions]
      rfl
  | halt | resume => exact ⟨h.unused, h.positions, h.nonneg⟩

/-- The first position that is admitted is not reported. -/
theorem overMax_of_capped {m m' : PortfolioModule} {c : PortfolioCall} (h : m.Vacant)
    (hstep : step m c = some m')
    (hpos : ∀ position, c = .updatePosition position → 0 < position.totalMarginRequired)
    (hcapped : m'.Capped) : m.OverMax c m' := by
  rintro position rfl hrunning
  cases hstep
  obtain ⟨hrefused, -⟩ | ⟨-, -, -, hpositions, -, hunused⟩ := updatePosition_cases h.unused position
  · exact hrefused.resolve_left (by simp [hrunning])
  · have hreported := hcapped.reported
    change (((m.updatePosition position).1.marginUsed : ℚ) / 1000) =
      total (·.totalMarginRequired) (m.updatePosition position).1.positions at hreported
    have hheld := total_insert (·.totalMarginRequired) m.positions position.id position
    rw [hunused, hpositions] at hreported
    rw [h.positions, total_empty] at hheld
    rw [h.positions] at hreported
    simp at hheld hreported
    have := hpos position rfl
    linarith

/-- **The margin cap**: the margin held is capped and reported in every state of a run,
and refused updates change nothing, exactly when the maximum is not negative and no
update is ever admitted. -/
theorem marginCap_iff (config : PortfolioConfig) (calls : List PortfolioCall)
    (positive : ∀ position, .updatePosition position ∈ calls → 0 < position.totalMarginRequired) :
    (AllStates step Capped (new config) calls ∧
        AllSteps step RefusalKeeps (new config) calls) ↔
      0 ≤ config.maxTotalMargin ∧ AllSteps step OverMax (new config) calls := by
  have valid : AllSteps step
      (fun _ c _ => ∀ position, c = .updatePosition position → 0 < position.totalMarginRequired)
      (new config) calls :=
    allSteps_of_forall_mem calls (new config) fun c hc position heq => positive position (heq ▸ hc)
  have iff : 0 ≤ config.maxTotalMargin →
      (AllSteps step OverMax (new config) calls ↔ AllStates step Capped (new config) calls) :=
    fun nonneg => allSteps_iff_allStates_of_valid (fun _ (h : Vacant _) => h.capped)
      (fun _ _ _ h hstep _ hover => h.call hstep hover)
      (fun _ _ _ h hstep hpos hcapped => overMax_of_capped h hstep hpos hcapped)
      (vacant_new nonneg) valid
  constructor
  · rintro ⟨hcapped, -⟩
    have nonneg : 0 ≤ config.maxTotalMargin := hcapped.1.le_max
    exact ⟨nonneg, (iff nonneg).mpr hcapped⟩
  · rintro ⟨nonneg, hover⟩
    exact ⟨(iff nonneg).mp hover,
      allSteps_of_forall (fun (m : PortfolioModule) c m' (hstep : step m c = some m') =>
        refusalKeeps_call hstep) calls (new config)⟩

/-- A position of one spot leg. -/
def spotPosition (id : String) (totalMarginRequired : ℚ) : MultiLegPosition where
  id := id
  symbol := "BTCUSD"
  legs := [⟨.spot, .long, 1⟩]
  netDelta := 1
  netGamma := 0
  netTheta := 0
  netVega := 0
  totalMarginRequired := totalMarginRequired
  pnlUnrealized := 0

/-- A position that needs twice the default maximum is refused. -/
theorem marginCap_refused :
    AllStates step Capped (new .default)
        [.updatePosition (spotPosition "pos_1" 20000000), .removePosition "pos_1"] ∧
      AllSteps step RefusalKeeps (new .default)
        [.updatePosition (spotPosition "pos_1" 20000000), .removePosition "pos_1"] := by
  refine (marginCap_iff .default _ ?_).mpr ⟨by decide +kernel, ?_, nofun, trivial⟩
  · intro position hmem
    rcases List.mem_cons.mp hmem with heq | hmem
    · cases heq
      decide +kernel
    · simp at hmem
  · rintro position heq -
    cases heq
    decide +kernel

/-- **Two positions that fit one by one**: together they need twelve million of ten. -/
theorem not_forall_capped :
    ¬ ∀ (config : PortfolioConfig) (calls : List PortfolioCall),
      (∀ position, .updatePosition position ∈ calls → 0 < position.totalMarginRequired) →
        AllStates step Capped (new config) calls ∧
          AllSteps step RefusalKeeps (new config) calls := by
  intro h
  obtain ⟨⟨-, -, hcapped, -⟩, -⟩ := h .default
    [.updatePosition (spotPosition "pos_1" 6000000), .updatePosition (spotPosition "pos_2" 6000000)]
    (by
      intro position hmem
      rcases List.mem_cons.mp hmem with heq | hmem
      · cases heq
        decide +kernel
      · cases List.mem_singleton.mp hmem
        decide +kernel)
  have hle := hcapped.le_max
  revert hle
  decide +kernel

end PortfolioModule

end StopTrading.Portfolio
