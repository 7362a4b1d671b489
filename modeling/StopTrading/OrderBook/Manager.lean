import StopTrading.OrderBook.Replay

/-!
# Gaps in a stream of deltas

The documentation of `apply_delta` promises an error when a gap is detected, and the field
`sequence` is there for gap detection.  But the only test is for updates that were seen
already; there is no error at all (`tryApplyDelta_eq`).  A delta behind a gap is taken as the
next one, by a book (`DetectsGap`, `not_detectsGap`) and through `OrderBookManager`, which
makes a book for a symbol it does not know.

### What is load-bearing

That there is no error is seen from the type of the answer only at first sight: `apply_delta`
answers a `Result`, and every path through it ends in `Ok`.  So the claim that gaps are detected
is false of every gap, and not for particular books.  The manager adds nothing to it; for a
symbol that it does not know it makes an empty book, to which any delta is the first.
-/

namespace StopTrading.Book

namespace OrderBook

/-- There is no error. -/
theorem tryApplyDelta_eq (b : OrderBook) (delta : OrderBookDelta) :
    b.tryApplyDelta delta = (b.applyDelta delta, .ok ()) := by
  unfold applyDelta tryApplyDelta
  split_ifs <;> rfl

/-- Updates are missing between a book and a delta. -/
def Gap (b : OrderBook) (delta : OrderBookDelta) : Prop :=
  b.isInitialized = true ∧ b.sequence + 1 < delta.sequence

/-- **A gap is detected**: there is an error, and the book stays. -/
structure DetectsGap (b : OrderBook) (outcome : OrderBook × Except String Unit) : Prop where
  /-- there is an error -/
  isError : ∃ e, outcome.2 = .error e
  /-- and the bids stay -/
  bids : outcome.1.bids = b.bids
  /-- and the asks -/
  asks : outcome.1.asks = b.asks
  /-- and the number -/
  sequence : outcome.1.sequence = b.sequence
  /-- and the update id -/
  lastUpdateId : outcome.1.lastUpdateId = b.lastUpdateId

/-- **A delta behind a gap** is taken as the next one. -/
theorem applyDelta_gap {b : OrderBook} {delta : OrderBookDelta} (h : b.Gap delta) :
    b.applyDelta delta =
      { b with
        bids := b.bids.applyDelta delta.bids
        asks := b.asks.applyDelta delta.asks
        lastUpdateId := delta.sequence
        sequence := delta.sequence
        timestampNs := delta.timestampNs } := by
  obtain ⟨hinit, hgap⟩ := h
  have hnew : ¬ (b.isInitialized = true ∧ delta.sequence ≤ b.sequence) := fun hold =>
    absurd hold.2 (by omega)
  rw [applyDelta_eq, if_neg hnew, hinit]

end OrderBook

/-- `OrderBookManager`. -/
structure OrderBookManager where
  books : AList fun _ : SymbolId => OrderBook

namespace OrderBookManager

/-- `new`. -/
def new : OrderBookManager := ⟨∅⟩

/-- `books.entry(symbol).or_insert_with(|| OrderBook::new(symbol))`: the book. -/
def entry (m : OrderBookManager) (symbol : SymbolId) : OrderBook :=
  (m.books.lookup symbol).getD (.new symbol)

/-- `apply_delta`. -/
def applyDelta (m : OrderBookManager) (delta : OrderBookDelta) :
    OrderBookManager × Except String Unit :=
  let (book, result) := (m.entry delta.symbol).tryApplyDelta delta
  (⟨m.books.insert delta.symbol book⟩, result)

/-- `get_book`. -/
def getBook (m : OrderBookManager) (symbol : SymbolId) : Option OrderBook :=
  m.books.lookup symbol

/-- **A delta goes to the book of its symbol**, and to no other. -/
theorem getBook_applyDelta (m : OrderBookManager) (delta : OrderBookDelta) (symbol : SymbolId) :
    (m.applyDelta delta).1.getBook symbol =
      if symbol = delta.symbol then some ((m.entry delta.symbol).applyDelta delta)
      else m.getBook symbol := by
  rw [applyDelta, OrderBook.tryApplyDelta_eq, getBook]
  dsimp only
  split_ifs with hsymbol
  · rw [hsymbol]
    exact AList.lookup_insert ..
  · exact AList.lookup_insert_ne hsymbol

/-- The manager answers `Ok` to every delta. -/
theorem result_applyDelta (m : OrderBookManager) (delta : OrderBookDelta) :
    (m.applyDelta delta).2 = .ok () := by
  rw [applyDelta, OrderBook.tryApplyDelta_eq]

/-- What the manager leaves for the symbol of a delta, with its result. -/
def outcome (m : OrderBookManager) (delta : OrderBookDelta) : OrderBook × Except String Unit :=
  ((m.applyDelta delta).1.entry delta.symbol, (m.applyDelta delta).2)

/-- The manager does with the book of the symbol what the book does. -/
theorem outcome_eq (m : OrderBookManager) (delta : OrderBookDelta) :
    m.outcome delta = (m.entry delta.symbol).tryApplyDelta delta := by
  have hbook : (m.applyDelta delta).1.books.lookup delta.symbol = _ :=
    (m.getBook_applyDelta delta delta.symbol).trans (if_pos rfl)
  rw [outcome, entry, hbook, result_applyDelta, OrderBook.tryApplyDelta_eq]
  rfl

end OrderBookManager

namespace OrderBook

/-- **No gap is detected**, by a book or by the manager that keeps it: the delta is applied,
and its number is that of the book. -/
theorem not_detectsGap {b : OrderBook} {delta : OrderBookDelta} (h : b.Gap delta) :
    ¬ DetectsGap b (b.tryApplyDelta delta) ∧
      ∀ m : OrderBookManager, m.getBook delta.symbol = some b →
        ¬ DetectsGap b (m.outcome delta) := by
  have hbook : ¬ DetectsGap b (b.tryApplyDelta delta) := by
    intro hdetects
    have hsequence := hdetects.sequence
    rw [tryApplyDelta_eq, applyDelta_gap h] at hsequence
    have hgap := h.2
    simp only at hsequence
    omega
  refine ⟨hbook, fun m hm => ?_⟩
  have hentry : m.entry delta.symbol = b := by
    rw [OrderBookManager.entry]
    exact congrArg (fun found => Option.getD found _) hm
  rwa [m.outcome_eq, hentry]

/-- A book at the number one, and a delta with the number three. -/
def bookAtOne : OrderBook :=
  { new (Vector.replicate 16 0) with sequence := 1, isInitialized := true }

/-- The delta behind the gap. -/
def deltaThree : OrderBookDelta := ⟨Vector.replicate 16 0, 3, [⟨100, 5, 1⟩], [], 7⟩

/-- The theorem on that book and delta. -/
theorem not_detectsGap_three :
    ¬ DetectsGap bookAtOne (bookAtOne.tryApplyDelta deltaThree) ∧
      ∀ m : OrderBookManager, m.getBook deltaThree.symbol = some bookAtOne →
        ¬ DetectsGap bookAtOne (m.outcome deltaThree) :=
  not_detectsGap ⟨rfl, by decide⟩

/-- **Documented, but not done.** -/
theorem not_forall_detectsGap :
    ¬ ∀ (b : OrderBook) (delta : OrderBookDelta), b.Gap delta →
      DetectsGap b (b.tryApplyDelta delta) := by
  intro h
  obtain ⟨e, he⟩ := (h bookAtOne deltaThree ⟨rfl, by decide⟩).isError
  rw [tryApplyDelta_eq] at he
  cases he

end OrderBook

end StopTrading.Book
