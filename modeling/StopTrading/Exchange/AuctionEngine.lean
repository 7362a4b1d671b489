import StopTrading.Exchange.AuctionPrice

/-!
# The auction engine

`AuctionEngine` keeps a phase and a book per symbol.  A state is made on demand; when the
engine is full the new state is handed out all the same, and what is written to it is
lost (`withSymbol`).  The phase decides which calls reach the book.

`book_apply` says what any call does to any symbol's book: nothing, or one call of
`AuctionBook` (`bookOp`).  So every run of the engine is a run of each book
(`exists_bookRun`), and the books are what is reasoned about.

### What is load-bearing

A full engine hands out a state for a new symbol that is not in its map.  The caller cannot tell,
and what it does to that state is lost.  For the books this means "nothing happens", and it would
be a special case in every later proof.  `book_apply` absorbs it: a call comes to at most one
call of the book, and on a full engine to none, since the books of symbols that are not in the
map are the new ones.

So nothing behind this module mentions the map.
-/

namespace StopTrading.Auction

open Transition

/-- `AuctionPhase`. -/
inductive AuctionPhase where
  | inactive
  | preOpen
  | orderModification
  | freeze
  | matching
  | executing
  deriving Repr, DecidableEq

namespace AuctionPhase

/-- `allows_order_entry`. -/
def allowsOrderEntry : AuctionPhase → Bool
  | .preOpen | .orderModification => true
  | _ => false

/-- `allows_cancellation`. -/
def allowsCancellation : AuctionPhase → Bool
  | .executing => false
  | _ => true

/-- The discriminants of `AuctionPhase` (`as u8`). -/
def toU8 : AuctionPhase → Nat
  | .inactive => 0
  | .preOpen => 1
  | .orderModification => 2
  | .freeze => 3
  | .matching => 4
  | .executing => 5

/-- `from_u8`. -/
def fromU8 : Nat → AuctionPhase
  | 0 => .inactive
  | 1 => .preOpen
  | 2 => .orderModification
  | 3 => .freeze
  | 4 => .matching
  | 5 => .executing
  | _ => .inactive

/-- A phase is read as it was stored. -/
@[simp]
theorem fromU8_toU8 (phase : AuctionPhase) : fromU8 phase.toU8 = phase := by
  cases phase <;> rfl

end AuctionPhase

/-- `SymbolAuctionState`. -/
structure SymbolAuctionState where
  symbol : Symbol
  /-- The phase as it is stored, a `u8`. -/
  phase : Nat
  book : AuctionBook

namespace SymbolAuctionState

/-- `SymbolAuctionState::new`. -/
def new (symbol : Symbol) : SymbolAuctionState :=
  ⟨symbol, AuctionPhase.inactive.toU8, .new symbol⟩

/-- `get_phase`. -/
def getPhase (st : SymbolAuctionState) : AuctionPhase := .fromU8 st.phase

/-- `set_phase`. -/
def setPhase (st : SymbolAuctionState) (phase : AuctionPhase) : SymbolAuctionState :=
  { st with phase := phase.toU8 }

/-- The phase that is set is the one that is read. -/
@[simp]
theorem getPhase_setPhase (st : SymbolAuctionState) (phase : AuctionPhase) :
    (st.setPhase phase).getPhase = phase := phase.fromU8_toU8

end SymbolAuctionState

/-- `AuctionEngine`. -/
structure AuctionEngine where
  symbols : AList fun _ : Symbol => SymbolAuctionState
  globalAuctionActive : Bool
  maxSymbols : Nat

namespace AuctionEngine

/-- `AuctionEngine::new`. -/
def new (maxSymbols : Nat) : AuctionEngine := ⟨∅, false, maxSymbols⟩

/-- `get_or_create_symbol`. -/
def getOrCreateSymbol (e : AuctionEngine) (symbol : Symbol) : SymbolAuctionState × AuctionEngine :=
  match e.symbols.lookup symbol with
  | some st => (st, e)
  | none =>
      let st := SymbolAuctionState.new symbol
      (st, if e.symbols.keys.length < e.maxSymbols then
        { e with symbols := e.symbols.insert symbol st } else e)

/-- Work on the state of a symbol.  A state that is not in the map is dropped with what
was done to it. -/
def withSymbol {α : Type} (e : AuctionEngine) (symbol : Symbol)
    (act : SymbolAuctionState → α × SymbolAuctionState) : α × AuctionEngine :=
  let (st, e') := e.getOrCreateSymbol symbol
  let (result, st') := act st
  (result, if (e'.symbols.lookup symbol).isSome then
    { e' with symbols := e'.symbols.insert symbol st' } else e')

/-- `start_auction`. -/
def startAuction (e : AuctionEngine) (symbol : Symbol) : AuctionEngine :=
  { (e.withSymbol symbol fun st => ((), st.setPhase .preOpen)).2 with globalAuctionActive := true }

/-- `transition_phase`. -/
def transitionPhase (e : AuctionEngine) (symbol : Symbol) (newPhase : AuctionPhase) :
    AuctionEngine :=
  (e.withSymbol symbol fun st => ((), st.setPhase newPhase)).2

/-- `submit_auction_order`. -/
def submitAuctionOrder (e : AuctionEngine) (order : AuctionOrder) :
    Except String Unit × AuctionEngine :=
  e.withSymbol order.symbol fun st =>
    if !st.getPhase.allowsOrderEntry then
      (.error "Order entry not allowed in current auction phase", st)
    else (.ok (), { st with book := st.book.addOrder order })

/-- `cancel_auction_order`. -/
def cancelAuctionOrder (e : AuctionEngine) (orderId : Nat) (symbol : Symbol) :
    Except String (Option AuctionOrder) × AuctionEngine :=
  e.withSymbol symbol fun st =>
    if !st.getPhase.allowsCancellation then
      (.error "Cancellation not allowed in current auction phase", st)
    else
      let (removed, book) := st.book.cancelOrder orderId
      (.ok removed, { st with book })

/-- `modify_auction_order`. -/
def modifyAuctionOrder (e : AuctionEngine) (orderId : Nat) (symbol : Symbol) (newQuantity : Nat)
    (newPrice : Option Int) : Except String Bool × AuctionEngine :=
  e.withSymbol symbol fun st =>
    if !st.getPhase.allowsOrderEntry then
      (.error "Order modification not allowed in current auction phase", st)
    else
      let (modified, book) := st.book.modifyOrder orderId newQuantity newPrice
      (.ok modified, { st with book })

/-- `get_indicative_price`. -/
def getIndicativePrice (e : AuctionEngine) (symbol : Symbol) :
    Option IndicativePrice × AuctionEngine :=
  e.withSymbol symbol fun st => (st.book.calculateIndicativePrice, st)

/-- `execute_auction`: the price is calculated, the whole book is returned. -/
def executeAuction (e : AuctionEngine) (symbol : Symbol) :
    (Option IndicativePrice × List AuctionOrder) × AuctionEngine :=
  e.withSymbol symbol fun st =>
    let st := st.setPhase .executing
    let indicative := st.book.calculateIndicativePrice
    let (orders, book) := st.book.clearBook
    ((indicative, orders), { st with book }.setPhase .inactive)

/-- `get_symbol_phase`. -/
def getSymbolPhase (e : AuctionEngine) (symbol : Symbol) : AuctionPhase × AuctionEngine :=
  e.withSymbol symbol fun st => (st.getPhase, st)

/-- `emergency_end_all`. -/
def emergencyEndAll (e : AuctionEngine) : AuctionEngine :=
  { e with
    symbols := ⟨e.symbols.entries.map (.map id fun _ st => st.setPhase .inactive),
      e.symbols.nodupKeys.map₂ _ _⟩
    globalAuctionActive := false }

/-- The order `reprice_for_continuous` makes of one: a market order becomes a limit order
at the reference price. -/
def reprice (referencePrice : Int) (order : AuctionOrder) : AuctionOrder :=
  if order.isMarketOrder then { order with priceTicks := referencePrice, isMarketOrder := false }
  else order

/-- `reprice_for_continuous`. -/
def repriceForContinuous (e : AuctionEngine) (symbol : Symbol) (referencePrice : Int) :
    List AuctionOrder × AuctionEngine :=
  e.withSymbol symbol fun st =>
    let (allOrders, book) := st.book.clearBook
    (allOrders.map (reprice referencePrice), { st with book })

/-- The calls of the engine. -/
inductive Call where
  | start (symbol : Symbol)
  | transition (symbol : Symbol) (newPhase : AuctionPhase)
  | submit (order : AuctionOrder)
  | cancel (orderId : Nat) (symbol : Symbol)
  | modify (orderId : Nat) (symbol : Symbol) (newQuantity : Nat) (newPrice : Option Int)
  | indicative (symbol : Symbol)
  | execute (symbol : Symbol)
  | phase (symbol : Symbol)
  | emergency
  | reprice (symbol : Symbol) (referencePrice : Int)
  deriving DecidableEq

/-- What a call leaves behind. -/
def apply (e : AuctionEngine) : Call → AuctionEngine
  | .start symbol => e.startAuction symbol
  | .transition symbol newPhase => e.transitionPhase symbol newPhase
  | .submit order => (e.submitAuctionOrder order).2
  | .cancel orderId symbol => (e.cancelAuctionOrder orderId symbol).2
  | .modify orderId symbol newQuantity newPrice =>
      (e.modifyAuctionOrder orderId symbol newQuantity newPrice).2
  | .indicative symbol => (e.getIndicativePrice symbol).2
  | .execute symbol => (e.executeAuction symbol).2
  | .phase symbol => (e.getSymbolPhase symbol).2
  | .emergency => e.emergencyEndAll
  | .reprice symbol referencePrice => (e.repriceForContinuous symbol referencePrice).2

/-- Every call is possible. -/
def step (e : AuctionEngine) (call : Call) : Option AuctionEngine := some (e.apply call)

/-- The state of a symbol: the one in the map, or the one it would start with. -/
def state (e : AuctionEngine) (symbol : Symbol) : SymbolAuctionState :=
  (e.symbols.lookup symbol).getD (.new symbol)

/-- The book of a symbol. -/
def book (e : AuctionEngine) (symbol : Symbol) : AuctionBook := (e.state symbol).book

/-- A new engine has new books. -/
@[simp]
theorem book_new (maxSymbols : Nat) (symbol : Symbol) :
    (new maxSymbols).book symbol = .new symbol := rfl

/-! ## What a call does to a book -/

section WithSymbol

variable {α : Type} (e : AuctionEngine) {symbol : Symbol}

/-- The state that is handed out is that of the symbol, -/
theorem getOrCreateSymbol_fst (symbol : Symbol) :
    (e.getOrCreateSymbol symbol).1 = e.state symbol := by
  unfold getOrCreateSymbol state
  cases e.symbols.lookup symbol <;> rfl

/-- and making it changes no state. -/
theorem state_getOrCreateSymbol (symbol s : Symbol) :
    (e.getOrCreateSymbol symbol).2.state s = e.state s := by
  unfold getOrCreateSymbol
  cases hlookup : e.symbols.lookup symbol with
  | some st => rfl
  | none =>
      dsimp only
      split
      · by_cases hs : s = symbol
        · subst hs
          rw [state, AList.lookup_insert, state, hlookup]
          rfl
        · rw [state, AList.lookup_insert_ne hs]
          rfl
      · rfl

/-- The work is done on the state of the symbol. -/
theorem withSymbol_fst (act : SymbolAuctionState → α × SymbolAuctionState) :
    (e.withSymbol symbol act).1 = (act (e.state symbol)).1 := by
  rw [← getOrCreateSymbol_fst]
  rfl

/-- The states of other symbols are not touched. -/
theorem state_withSymbol_of_ne (act : SymbolAuctionState → α × SymbolAuctionState) {s : Symbol}
    (h : s ≠ symbol) : (e.withSymbol symbol act).2.state s = e.state s := by
  rw [← e.state_getOrCreateSymbol symbol s]
  unfold withSymbol
  dsimp only
  split
  · rw [state, AList.lookup_insert_ne h]
    rfl
  · rfl

/-- **The book of the symbol is what the work makes of it.**  Where the engine is full
this needs that the work does nothing to an empty book, since its result is dropped. -/
theorem book_withSymbol_self (act : SymbolAuctionState → α × SymbolAuctionState)
    (hnew : (act (.new symbol)).2.book = .new symbol) :
    (e.withSymbol symbol act).2.book symbol = (act (e.state symbol)).2.book := by
  have hstate := e.state_getOrCreateSymbol symbol symbol
  rw [← getOrCreateSymbol_fst]
  unfold withSymbol
  dsimp only
  split
  · rw [book, state, AList.lookup_insert, Option.getD_some]
  · rename_i hsome
    have hnone : (e.getOrCreateSymbol symbol).2.symbols.lookup symbol = none := by
      simpa using hsome
    have hfirst : (e.getOrCreateSymbol symbol).1 = .new symbol := by
      rw [getOrCreateSymbol_fst, ← hstate, state, hnone]
      rfl
    rw [book, state, hnone, hfirst, hnew]
    rfl

/-- Work that is one call of the book, or none, is that for every symbol's book. -/
theorem book_withSymbol (act : SymbolAuctionState → α × SymbolAuctionState)
    (op : SymbolAuctionState → Option AuctionBook.Op)
    (hact : ∀ st, (act st).2.book = (op st).elim st.book st.book.apply)
    (hnew : (act (.new symbol)).2.book = .new symbol) (s : Symbol) :
    (e.withSymbol symbol act).2.book s =
      (if symbol = s then op (e.state s) else none).elim (e.book s) (e.book s).apply := by
  by_cases hs : symbol = s
  · subst hs
    rw [if_pos rfl, book_withSymbol_self e act hnew, hact]
    rfl
  · rw [if_neg hs]
    exact congrArg SymbolAuctionState.book (e.state_withSymbol_of_ne act (Ne.symm hs))

/-- Work that leaves the book alone changes no book. -/
theorem book_withSymbol_of_id (act : SymbolAuctionState → α × SymbolAuctionState)
    (hact : ∀ st, (act st).2.book = st.book) (s : Symbol) :
    (e.withSymbol symbol act).2.book s = e.book s := by
  rw [book_withSymbol e act (fun _ => none) hact (hact _), ite_self]
  rfl

end WithSymbol

/-- The call of the book of `s` that a call of the engine comes to, if any. -/
def bookOp (e : AuctionEngine) (s : Symbol) : Call → Option AuctionBook.Op
  | .submit order =>
      if order.symbol = s then
        if (e.state s).getPhase.allowsOrderEntry then some (.add order) else none
      else none
  | .cancel orderId symbol =>
      if symbol = s then
        if (e.state s).getPhase.allowsCancellation then some (.cancel orderId) else none
      else none
  | .modify orderId symbol newQuantity newPrice =>
      if symbol = s then
        if (e.state s).getPhase.allowsOrderEntry then some (.modify orderId newQuantity newPrice)
        else none
      else none
  | .execute symbol | .reprice symbol _ => if symbol = s then some .clear else none
  | .start _ | .transition .. | .indicative _ | .phase _ | .emergency => none

/-- Ending all auctions changes phases only. -/
theorem book_emergencyEndAll (e : AuctionEngine) (s : Symbol) :
    e.emergencyEndAll.book s = e.book s := by
  have hlookup : e.emergencyEndAll.symbols.lookup s =
      (e.symbols.lookup s).map fun st => st.setPhase .inactive :=
    List.dlookup_map₂ s
  unfold book state
  rw [hlookup]
  cases e.symbols.lookup s <;> rfl

/-- **What a call of the engine does to a book.** -/
theorem book_apply (e : AuctionEngine) (call : Call) (s : Symbol) :
    (e.apply call).book s = (e.bookOp s call).elim (e.book s) (e.book s).apply := by
  cases call with
  | start symbol =>
      refine e.book_withSymbol_of_id (fun st => ((), st.setPhase .preOpen)) ?_ s
      exact fun _ => rfl
  | transition symbol newPhase =>
      refine e.book_withSymbol_of_id (fun st => ((), st.setPhase newPhase)) ?_ s
      exact fun _ => rfl
  | submit order =>
      refine e.book_withSymbol _
        (fun st => if st.getPhase.allowsOrderEntry then some (.add order) else none) ?_ rfl s
      intro st
      cases st.getPhase.allowsOrderEntry <;> rfl
  | cancel orderId symbol =>
      refine e.book_withSymbol _
        (fun st => if st.getPhase.allowsCancellation then some (.cancel orderId) else none) ?_ rfl s
      intro st
      cases st.getPhase.allowsCancellation <;> rfl
  | modify orderId symbol newQuantity newPrice =>
      refine e.book_withSymbol _
        (fun st => if st.getPhase.allowsOrderEntry then some (.modify orderId newQuantity newPrice)
          else none) ?_ rfl s
      intro st
      cases st.getPhase.allowsOrderEntry <;> rfl
  | indicative symbol => exact e.book_withSymbol_of_id _ (fun _ => rfl) s
  | execute symbol => exact e.book_withSymbol _ (fun _ => some .clear) (fun _ => rfl) rfl s
  | phase symbol => exact e.book_withSymbol_of_id _ (fun _ => rfl) s
  | emergency => exact book_emergencyEndAll e s
  | reprice symbol referencePrice =>
      exact e.book_withSymbol _ (fun _ => some .clear) (fun _ => rfl) rfl s

/-- **Every run of the engine is a run of each book.** -/
theorem exists_bookRun (s : Symbol) {calls : List Call} {e e' : AuctionEngine}
    (hrun : run step e calls = some e') :
    ∃ ops, run AuctionBook.step (e.book s) ops = some (e'.book s) := by
  induction calls generalizing e with
  | nil =>
      obtain rfl : e = e' := Option.some.inj hrun
      exact ⟨[], rfl⟩
  | cons call calls ih =>
      obtain ⟨m, hstep, hrest⟩ := run_cons.mp hrun
      obtain rfl : e.apply call = m := Option.some.inj hstep
      obtain ⟨ops, hops⟩ := ih hrest
      rw [book_apply] at hops
      cases hop : e.bookOp s call with
      | none => exact ⟨ops, by rwa [hop] at hops⟩
      | some op => exact ⟨op :: ops, run_cons.mpr ⟨_, rfl, by rwa [hop] at hops⟩⟩

end AuctionEngine

end StopTrading.Auction
