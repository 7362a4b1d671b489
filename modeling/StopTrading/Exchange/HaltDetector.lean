import StopTrading.Library.FirstMatch
import StopTrading.Library.Transition

/-!
# The halt detector

`HaltDetector` keeps three layers: the state of every symbol, a flag for every venue
that only venue-wide events write, and a kill switch.  `processHaltMessage` records
an event; the venues and the symbols of a venue are searched from the front.

What the detector is for is `HaltsRespected`: as long as the last word on a symbol,
or on its whole venue, is a halt, the symbol is not tradeable and the kill switch is
set.  The kill switch is set by every halt and cleared by a resume that finds no
venue flagged; halted symbols are not looked at.  So a halt is unmasked just by a
resume that arrives while no venue-wide halt is in force and some symbol is still
halted (`haltsRespected_iff_resumesClear`).

The venue identifiers are an arbitrary type with decidable equality.

### What is load-bearing

That a symbol is not tradeable is asked of three layers, and the kill switch answers first.
While it is set every symbol is untradeable (`haltsRespected_iff`), so what counts is when it is
cleared: by a resume that finds no venue flagged.  `Tracked` says what the flags are worth, one
venue-wide event back, and the list of the venues is searched from the front, so that a venue
that is configured twice is found only once (`shadowed`).

With that, the condition is about a resume and the history before it.  It is necessary since a
resume that clears the switch while a symbol is halted leaves `HaltsRespected` false at once.
-/

namespace StopTrading.Exchange

open Transition

/-- `TradingState`. -/
inductive TradingState where
  | «open»
  | preOpen
  | closeAuction
  | volatilityHalt
  | regulatoryHalt
  | technicalHalt
  | maintenance
  | closed
  deriving Repr, DecidableEq

namespace TradingState

/-- `is_tradeable`. -/
def isTradeable : TradingState → Bool
  | .open | .preOpen | .closeAuction => true
  | _ => false

/-- The discriminants of `TradingState` (`as u8`). -/
def toU8 : TradingState → Nat
  | .open => 0
  | .preOpen => 1
  | .closeAuction => 2
  | .volatilityHalt => 3
  | .regulatoryHalt => 4
  | .technicalHalt => 5
  | .maintenance => 6
  | .closed => 7

/-- `from_u8`. -/
def fromU8 : Nat → TradingState
  | 0 => .open
  | 1 => .preOpen
  | 2 => .closeAuction
  | 3 => .volatilityHalt
  | 4 => .regulatoryHalt
  | 5 => .technicalHalt
  | 6 => .maintenance
  | _ => .closed

/-- A stored state is read back. -/
@[simp]
theorem fromU8_toU8 (state : TradingState) : fromU8 state.toU8 = state := by
  cases state <;> rfl

end TradingState

/-- `CircuitBreakerLevel`. -/
inductive CircuitBreakerLevel where
  | none
  | level1
  | level2
  | level3
  deriving Repr, DecidableEq

/-- The discriminants of `CircuitBreakerLevel`. -/
def CircuitBreakerLevel.toU8 : CircuitBreakerLevel → Nat
  | .none => 0
  | .level1 => 1
  | .level2 => 2
  | .level3 => 3

/-- A symbol: `[u8; 12]`. -/
abbrev Symbol := Vector UInt8 12

/-- `HaltEvent`. -/
structure HaltEvent (V : Type) where
  venueId : V
  symbol : Symbol
  state : TradingState
  circuitBreakerLevel : CircuitBreakerLevel
  timestampNs : Nat
  expectedResumeNs : Option Nat
  reasonCode : Nat
  deriving Repr, DecidableEq

/-- `SymbolHaltState`. -/
structure SymbolHaltState where
  symbol : Symbol
  state : Nat
  lastUpdateNs : Nat
  circuitBreaker : Nat
  expectedResumeNs : Nat
  deriving Repr, DecidableEq

/-- `VenueHaltState`. -/
structure VenueHaltState (V : Type) where
  venueId : V
  globalState : Nat
  symbols : List SymbolHaltState
  anyHalted : Bool
  deriving Repr, DecidableEq

/-- `HaltDetector`. -/
structure HaltDetector (V : Type) where
  globalKillSwitch : Bool
  venueStates : List (VenueHaltState V)
  lastHeartbeatNs : Nat
  isActive : Bool
  deriving Repr, DecidableEq

variable {V : Type}

namespace SymbolHaltState

/-- `SymbolHaltState::new`. -/
def new (symbol : Symbol) : SymbolHaltState where
  symbol := symbol
  state := TradingState.open.toU8
  lastUpdateNs := 0
  circuitBreaker := CircuitBreakerLevel.none.toU8
  expectedResumeNs := 0

/-- `SymbolHaltState::update`. -/
def update (s : SymbolHaltState) (event : HaltEvent V) : SymbolHaltState :=
  { s with
    state := event.state.toU8
    lastUpdateNs := event.timestampNs
    circuitBreaker := event.circuitBreakerLevel.toU8
    expectedResumeNs := event.expectedResumeNs.getD s.expectedResumeNs }

/-- `is_halted`. -/
def isHalted (s : SymbolHaltState) : Bool := !(TradingState.fromU8 s.state).isTradeable

end SymbolHaltState

namespace VenueHaltState

/-- `VenueHaltState::new`. -/
def new (venueId : V) : VenueHaltState V := ⟨venueId, TradingState.open.toU8, [], false⟩

/-- The symbols after `get_or_create_symbol`. -/
def getOrCreateSymbol (vs : VenueHaltState V) (symbol : Symbol) : List SymbolHaltState :=
  if symbol ∈ vs.symbols.map SymbolHaltState.symbol then vs.symbols
  else vs.symbols ++ [.new symbol]

/-- `update_global_state`. -/
def updateGlobalState (vs : VenueHaltState V) (state : TradingState) : VenueHaltState V :=
  { vs with globalState := state.toU8, anyHalted := !state.isTradeable }

/-- What `process_halt_message` does to the venue of the event: the symbol, then the
flag if the event is venue-wide. -/
def process (event : HaltEvent V) (vs : VenueHaltState V) : VenueHaltState V :=
  let recorded :=
    { vs with
      symbols := FirstMatch.modify SymbolHaltState.symbol event.symbol (·.update event)
        (vs.getOrCreateSymbol event.symbol) }
  if event.reasonCode < 100 then recorded.updateGlobalState event.state else recorded

end VenueHaltState

namespace HaltDetector

/-- `HaltDetector::new`. -/
def new (venues : List V) : HaltDetector V where
  globalKillSwitch := false
  venueStates := venues.map .new
  lastHeartbeatNs := 0
  isActive := true

/-- Some venue is flagged as halted. -/
def anyStillHalted (venueStates : List (VenueHaltState V)) : Bool :=
  venueStates.any VenueHaltState.anyHalted

variable [DecidableEq V]

/-- `process_halt_message`. -/
def processHaltMessage (d : HaltDetector V) (event : HaltEvent V) : HaltDetector V :=
  if d.isActive = false then d
  else if event.venueId ∈ d.venueStates.map VenueHaltState.venueId then
    let venueStates :=
      FirstMatch.modify VenueHaltState.venueId event.venueId (·.process event) d.venueStates
    { d with
      lastHeartbeatNs := event.timestampNs
      venueStates := venueStates
      globalKillSwitch :=
        if event.state.isTradeable = false then true
        else if anyStillHalted venueStates then d.globalKillSwitch
        else false }
  else { d with lastHeartbeatNs := event.timestampNs }

/-- `is_symbol_tradeable`. -/
def isSymbolTradeable (d : HaltDetector V) (venueId : V) (symbol : Symbol) : Bool :=
  if d.globalKillSwitch then false
  else
    match FirstMatch.find VenueHaltState.venueId venueId d.venueStates with
    | none => true
    | some vs =>
        if vs.anyHalted then
          match FirstMatch.find SymbolHaltState.symbol symbol vs.symbols with
          | none => true
          | some s => !s.isHalted
        else true

end HaltDetector

/-! ## Histories of events -/

/-- The most recent event that satisfies `p`, in a history with the newest event
first, is a halt. -/
def LastHalts (p : HaltEvent V → Bool) (history : List (HaltEvent V)) : Prop :=
  ∃ event, history.find? p = some event ∧ event.state.isTradeable = false

section

variable [DecidableEq V]

/-- The last event for a symbol of a venue is a halt. -/
def SymbolHalted (history : List (HaltEvent V)) (venue : V) (symbol : Symbol) : Prop :=
  LastHalts (fun event => event.venueId = venue ∧ event.symbol = symbol) history

/-- The last venue-wide event of a venue is a halt. -/
def VenueHalted (history : List (HaltEvent V)) (venue : V) : Prop :=
  LastHalts (fun event => event.venueId = venue ∧ event.reasonCode < 100) history

end

/-- An event that counts decides, -/
theorem lastHalts_cons_of_pos {p : HaltEvent V → Bool} {event : HaltEvent V}
    {history : List (HaltEvent V)} (h : p event = true) :
    LastHalts p (event :: history) ↔ event.state.isTradeable = false := by
  rw [LastHalts, List.find?_cons_of_pos h]
  constructor
  · rintro ⟨e, he, hstate⟩
    cases he
    exact hstate
  · intro hstate
    exact ⟨event, rfl, hstate⟩

/-- and one that does not changes nothing. -/
theorem lastHalts_cons_of_neg {p : HaltEvent V → Bool} {event : HaltEvent V}
    {history : List (HaltEvent V)} (h : ¬ p event = true) :
    LastHalts p (event :: history) ↔ LastHalts p history := by
  rw [LastHalts, List.find?_cons_of_neg h, LastHalts]

/-! ## Runs -/

/-- A detector and the events it has been given, the newest first. -/
structure Watch (V : Type) where
  detector : HaltDetector V
  history : List (HaltEvent V)
  deriving Repr, DecidableEq

namespace Watch

/-- Processing an event keeps the identifier of the venue. -/
theorem venueId_process (event : HaltEvent V) (vs : VenueHaltState V) :
    (vs.process event).venueId = vs.venueId := by
  unfold VenueHaltState.process
  split <;> rfl

/-- A new detector. -/
def init (venues : List V) : Watch V := ⟨.new venues, []⟩

variable [DecidableEq V]

/-- One event. -/
def step (w : Watch V) (event : HaltEvent V) : Option (Watch V) :=
  some ⟨w.detector.processHaltMessage event, event :: w.history⟩

/-- **A halted symbol is not tradeable**, and while there is one the kill switch is
set. -/
def HaltsRespected (venues : List V) (w : Watch V) : Prop :=
  ∀ venue ∈ venues, ∀ symbol, SymbolHalted w.history venue symbol ∨ VenueHalted w.history venue →
    w.detector.isSymbolTradeable venue symbol = false ∧ w.detector.globalKillSwitch = true

/-- **A resume that leaves no venue-wide halt in force leaves no symbol halted.** -/
def ResumesClear (venues : List V) (w : Watch V) (event : HaltEvent V) (_ : Watch V) : Prop :=
  event.venueId ∈ venues → event.state.isTradeable = true →
    (∀ venue ∈ venues, ¬ VenueHalted (event :: w.history) venue) →
    ∀ venue ∈ venues, ∀ symbol, ¬ SymbolHalted (event :: w.history) venue symbol

/-- The kill switch alone makes every symbol untradeable. -/
theorem haltsRespected_iff {venues : List V} {w : Watch V} :
    HaltsRespected venues w ↔
      ∀ venue ∈ venues, ∀ symbol,
        SymbolHalted w.history venue symbol ∨ VenueHalted w.history venue →
        w.detector.globalKillSwitch = true := by
  constructor
  · intro h venue hvenue symbol halted
    exact (h venue hvenue symbol halted).2
  · intro h venue hvenue symbol halted
    have hkill := h venue hvenue symbol halted
    exact ⟨if_pos hkill, hkill⟩

/-- The flags of the venues follow the venue-wide events. -/
structure Tracked (venues : List V) (w : Watch V) : Prop where
  /-- the detector is on -/
  isActive : w.detector.isActive = true
  /-- it keeps its venues -/
  venues_eq : w.detector.venueStates.map VenueHaltState.venueId = venues
  /-- of which only those that are found are ever flagged -/
  shadowed : FirstMatch.Shadowed VenueHaltState.venueId (fun vs => vs.anyHalted = true)
    w.detector.venueStates
  /-- just while a venue-wide halt is in force -/
  flag_iff : ∀ venue vs,
    FirstMatch.find VenueHaltState.venueId venue w.detector.venueStates = some vs →
      (vs.anyHalted = true ↔ VenueHalted w.history venue)

/-- Some venue is flagged just when a venue-wide halt is in force. -/
theorem Tracked.anyStillHalted_iff {venues : List V} {w : Watch V} (h : w.Tracked venues) :
    HaltDetector.anyStillHalted w.detector.venueStates = true ↔
      ∃ venue ∈ venues, VenueHalted w.history venue := by
  rw [HaltDetector.anyStillHalted, List.any_eq_true]
  constructor
  · rintro ⟨vs, hmem, hflag⟩
    refine ⟨vs.venueId, ?_, (h.flag_iff _ vs (h.shadowed.find_of_mem hmem hflag)).mp hflag⟩
    rw [← h.venues_eq]
    exact List.mem_map_of_mem hmem
  · rintro ⟨venue, hvenue, halted⟩
    rw [← h.venues_eq] at hvenue
    cases hfind : FirstMatch.find VenueHaltState.venueId venue w.detector.venueStates with
    | none => exact absurd hvenue (FirstMatch.find_eq_none_iff.mp hfind)
    | some vs =>
        exact ⟨vs, FirstMatch.mem_of_find hfind, (h.flag_iff venue vs hfind).mpr halted⟩

/-- Nothing is flagged, and nothing has happened. -/
theorem tracked_init (venues : List V) : (init venues).Tracked venues where
  isActive := rfl
  venues_eq := by
    rw [init, HaltDetector.new, List.map_map]
    exact List.map_id venues
  shadowed := by
    refine List.pairwise_of_forall_mem_list fun x _ y hy _ hflag => ?_
    obtain ⟨venue, -, rfl⟩ := List.mem_map.mp hy
    cases hflag
  flag_iff venue vs hfind := by
    obtain ⟨v, -, rfl⟩ := List.mem_map.mp (FirstMatch.mem_of_find hfind)
    refine iff_of_false Bool.false_ne_true ?_
    rintro ⟨event, hevent, -⟩
    cases hevent

/-- The flag after an event is about the history with the event. -/
theorem anyHalted_process {event : HaltEvent V} {vs : VenueHaltState V}
    {history : List (HaltEvent V)}
    (h : vs.anyHalted = true ↔ VenueHalted history event.venueId) :
    (vs.process event).anyHalted = true ↔ VenueHalted (event :: history) event.venueId := by
  unfold VenueHaltState.process VenueHalted
  by_cases hwide : event.reasonCode < 100
  · rw [if_pos hwide, lastHalts_cons_of_pos (decide_eq_true ⟨rfl, hwide⟩)]
    exact iff_of_eq (Bool.not_eq_true' _)
  · rw [if_neg hwide, lastHalts_cons_of_neg fun hp => hwide (of_decide_eq_true hp).2]
    exact h

/-- An event of one venue says nothing about another. -/
theorem venueHalted_cons_of_ne {event : HaltEvent V} {history : List (HaltEvent V)} {venue : V}
    (hne : event.venueId ≠ venue) :
    VenueHalted (event :: history) venue ↔ VenueHalted history venue :=
  lastHalts_cons_of_neg fun hp => hne (of_decide_eq_true hp).1

/-- An event of one venue halts no symbol of another. -/
theorem symbolHalted_cons_of_ne {event : HaltEvent V} {history : List (HaltEvent V)} {venue : V}
    (hne : event.venueId ≠ venue) (symbol : Symbol) :
    SymbolHalted (event :: history) venue symbol ↔ SymbolHalted history venue symbol :=
  lastHalts_cons_of_neg fun hp => hne (of_decide_eq_true hp).1

/-- A resume puts no venue-wide halt into force. -/
theorem venueHalted_of_cons_resume {event : HaltEvent V} {history : List (HaltEvent V)} {venue : V}
    (hresume : event.state.isTradeable = true) (h : VenueHalted (event :: history) venue) :
    VenueHalted history venue := by
  by_cases hp : event.venueId = venue ∧ event.reasonCode < 100
  · rw [VenueHalted, lastHalts_cons_of_pos (decide_eq_true hp), hresume] at h
    cases h
  · rwa [VenueHalted, lastHalts_cons_of_neg fun hdec => hp (of_decide_eq_true hdec)] at h

/-- **What an event does** to an active detector. -/
theorem processHaltMessage_cases {d : HaltDetector V} (hactive : d.isActive = true)
    (event : HaltEvent V) :
    (event.venueId ∉ d.venueStates.map VenueHaltState.venueId ∧
      d.processHaltMessage event = { d with lastHeartbeatNs := event.timestampNs }) ∨
    (event.venueId ∈ d.venueStates.map VenueHaltState.venueId ∧
      ∃ venueStates, venueStates =
          FirstMatch.modify VenueHaltState.venueId event.venueId (·.process event) d.venueStates ∧
        d.processHaltMessage event =
          { d with
            lastHeartbeatNs := event.timestampNs
            venueStates := venueStates
            globalKillSwitch :=
              if event.state.isTradeable = false then true
              else if HaltDetector.anyStillHalted venueStates then d.globalKillSwitch
              else false }) := by
  have hinactive : ¬ d.isActive = false := by rw [hactive]; exact Bool.noConfusion
  by_cases hmem : event.venueId ∈ d.venueStates.map VenueHaltState.venueId
  · refine Or.inr ⟨hmem, _, rfl, ?_⟩
    rw [HaltDetector.processHaltMessage, if_neg hinactive, if_pos hmem]
  · refine Or.inl ⟨hmem, ?_⟩
    rw [HaltDetector.processHaltMessage, if_neg hinactive, if_neg hmem]

/-- The flags keep following the events. -/
theorem Tracked.step {venues : List V} {w w' : Watch V} {event : HaltEvent V}
    (h : w.Tracked venues) (hstep : w.step event = some w') : w'.Tracked venues := by
  cases hstep
  rcases processHaltMessage_cases h.isActive event with ⟨hnot, heq⟩ | ⟨hmem, venueStates, hvs, heq⟩
  · refine ⟨?_, ?_, ?_, fun venue vs hfind => ?_⟩
    · rw [heq]; exact h.isActive
    · rw [heq]; exact h.venues_eq
    · rw [heq]; exact h.shadowed
    · -- a venue that is configured is not the one of this event
      rw [heq] at hfind
      have hne : event.venueId ≠ venue := by
        rintro rfl
        rw [FirstMatch.find_eq_none_iff.mpr hnot] at hfind
        cases hfind
      exact (h.flag_iff venue vs hfind).trans (venueHalted_cons_of_ne hne).symm
  · refine ⟨?_, ?_, ?_, fun venue vs hfind => ?_⟩
    · rw [heq]; exact h.isActive
    · rw [heq, hvs]
      exact (FirstMatch.keys_modify (venueId_process event) _ _).trans h.venues_eq
    · rw [heq, hvs]
      exact h.shadowed.modify (venueId_process event)
    · rw [heq, hvs] at hfind
      by_cases hvenue : venue = event.venueId
      · subst hvenue
        rw [FirstMatch.find_modify_self (venueId_process event), Option.map_eq_some_iff] at hfind
        obtain ⟨vs, hfind, rfl⟩ := hfind
        exact anyHalted_process (h.flag_iff _ vs hfind)
      · rw [FirstMatch.find_modify_of_ne (venueId_process event) hvenue] at hfind
        exact (h.flag_iff venue vs hfind).trans (venueHalted_cons_of_ne (Ne.symm hvenue)).symm

/-- The invariant of the runs in which every resume clears. -/
structure Inv (venues : List V) (w : Watch V) : Prop where
  /-- the flags follow the events -/
  tracked : w.Tracked venues
  /-- and halts are respected -/
  respected : HaltsRespected venues w

/-- **A resume that clears keeps halts respected.** -/
theorem Inv.step {venues : List V} {w w' : Watch V} {event : HaltEvent V} (inv : w.Inv venues)
    (hstep : w.step event = some w') (hclear : ResumesClear venues w event w') :
    w'.Inv venues := by
  refine ⟨inv.tracked.step hstep, haltsRespected_iff.mpr fun venue hvenue symbol halted => ?_⟩
  have hkill := haltsRespected_iff.mp inv.respected
  have tracked' := (inv.tracked.step hstep).anyStillHalted_iff
  cases hstep
  rcases processHaltMessage_cases inv.tracked.isActive event with
    ⟨hnot, heq⟩ | ⟨hmem, venueStates, hvs, heq⟩
  · rw [inv.tracked.venues_eq] at hnot
    have hne : event.venueId ≠ venue := fun h => hnot (h ▸ hvenue)
    rw [symbolHalted_cons_of_ne hne, venueHalted_cons_of_ne hne] at halted
    rw [heq]
    exact hkill venue hvenue symbol halted
  · rw [inv.tracked.venues_eq] at hmem
    rw [heq] at tracked' ⊢
    show (if event.state.isTradeable = false then true else _) = true
    by_cases htrade : event.state.isTradeable = true
    · -- a resume keeps the switch set as long as a venue is flagged
      rw [if_neg (by rw [htrade]; exact Bool.noConfusion)]
      by_cases hany : HaltDetector.anyStillHalted venueStates = true
      · rw [if_pos hany]
        obtain ⟨v, hv, hhalted⟩ := tracked'.mp hany
        exact hkill v hv symbol (Or.inr (venueHalted_of_cons_resume htrade hhalted))
      · have hnone : ∀ v ∈ venues, ¬ VenueHalted (event :: w.history) v :=
          fun v hv hhalted => hany (tracked'.mpr ⟨v, hv, hhalted⟩)
        rcases halted with hsymbol | hwide
        · exact absurd hsymbol (hclear hmem htrade hnone venue hvenue symbol)
        · exact absurd hwide (hnone venue hvenue)
    · exact if_pos (Bool.not_eq_true _ ▸ htrade)

/-- **A step after which halts are respected was no resume that unmasks one.** -/
theorem Tracked.resumesClear {venues : List V} {w w' : Watch V} {event : HaltEvent V}
    (h : w.Tracked venues) (hstep : w.step event = some w')
    (hrespected : HaltsRespected venues w') : ResumesClear venues w event w' := by
  intro hmem htrade hnone venue hvenue symbol hsymbol
  have hkill := haltsRespected_iff.mp hrespected venue hvenue symbol
  have tracked' := (h.step hstep).anyStillHalted_iff
  cases hstep
  rcases processHaltMessage_cases h.isActive event with ⟨hnot, heq⟩ | ⟨-, venueStates, hvs, heq⟩
  · rw [h.venues_eq] at hnot
    exact hnot hmem
  · rw [heq] at tracked' hkill
    have hany : ¬ HaltDetector.anyStillHalted venueStates = true := fun hany => by
      obtain ⟨v, hv, hhalted⟩ := tracked'.mp hany
      exact hnone v hv hhalted
    have hset := hkill (Or.inl hsymbol)
    simp only [htrade, hany] at hset
    cases hset

/-- **When halts are respected.**  For all configured venues and every sequence of
events: just when every resume of a configured venue that leaves no venue-wide halt
in force leaves no symbol halted either. -/
theorem haltsRespected_iff_resumesClear (venues : List V) (events : List (HaltEvent V)) :
    AllSteps step (ResumesClear venues) (init venues) events ↔
      AllStates step (HaltsRespected venues) (init venues) events := by
  have start : HaltsRespected venues (init venues) := by
    rintro venue - symbol (⟨event, hevent, -⟩ | ⟨event, hevent, -⟩) <;> cases hevent
  exact allSteps_iff_allStates (fun _ (inv : Inv venues _) => inv.respected)
    (fun _ _ _ inv hstep hclear => inv.step hstep hclear)
    (fun _ _ _ inv hstep hrespected => inv.tracked.resumesClear hstep hrespected)
    ⟨tracked_init venues, start⟩ events

/-- An event for one symbol of venue 0. -/
def symbolEvent (symbol : UInt8) (state : TradingState) : HaltEvent Nat where
  venueId := 0
  symbol := Vector.replicate 12 symbol
  state := state
  circuitBreakerLevel := .none
  timestampNs := 0
  expectedResumeNs := none
  reasonCode := 200

/-- The resume of one symbol clears the kill switch while another symbol is halted. -/
theorem not_forall_haltsRespected :
    ¬ ∀ (venues : List Nat) (events : List (HaltEvent Nat)),
      AllStates step (HaltsRespected venues) (init venues) events := by
  intro h
  obtain ⟨-, -, hresumed, -⟩ :=
    h [0] [symbolEvent 65 .volatilityHalt, symbolEvent 66 .open]
  have halted : SymbolHalted [symbolEvent 66 .open, symbolEvent 65 .volatilityHalt] 0
      (Vector.replicate 12 65) := ⟨symbolEvent 65 .volatilityHalt, by decide, rfl⟩
  have hkill := (hresumed 0 (by decide) _ (Or.inl halted)).2
  revert hkill
  decide

end Watch

end StopTrading.Exchange
