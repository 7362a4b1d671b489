import StopTrading.Exchange.AuctionEngine
import StopTrading.Library.ListSplits

/-!
# Cancelling resting orders

Cancelling finds an order through `order_lookup`, which has one place per id: `add_order`
lists an id under its newest place without looking whether the id is stored already.  An
order stays cancellable as long as the places listed are the places stored and no id is
stored twice at one (`Listed`).

Cancelling, modifying and clearing keep that.  An addition does when its id is not
stored, and otherwise an order is lost to cancellation at once
(`notMem_orderIds_of_cancellable`).  So every resting order stays cancellable exactly in
the runs of the engine in which no accepted submission repeats a stored id
(`cancellable_iff_freshIds`).

### What is load-bearing

`Cancellable` asks for two things, and the second is the one that fails.  An id may be listed and
lead to its order, and cancelling it may still leave another order with that id behind: one at an
older place, which is listed no longer, or an older one at the same place.  Both come from one
cause, an addition with an id that is stored, and `notMem_orderIds_of_cancellable` shows that
either way some order is lost at once; so the condition is necessary in the very step in which it
is violated.

Whether a submission reaches the book depends on the phase of its symbol, and a refused one does
no harm.  `FreshId` says "if the phase lets it through" for that reason.
-/

namespace StopTrading.Auction

open Transition ListSplits

namespace AuctionBook

/-- The ids of the stored orders. -/
def orderIds (b : AuctionBook) : List Nat := b.clearBook.1.map AuctionOrder.orderId

/-- **Every resting order can be cancelled**: its id is listed under its own price and
side, and cancelling the id leaves it nowhere. -/
def Cancellable (b : AuctionBook) : Prop :=
  ∀ s, ∀ o ∈ (b.side s).drain, b.orderLookup.lookup o.orderId = some (o.priceTicks, o.side) ∧
    ∀ s', o ∉ ((b.cancelOrder o.orderId).2.side s').drain

/-- The invariant: the listed places are the places stored, and no id is stored twice at
one. -/
structure Listed (b : AuctionBook) : Prop where
  /-- orders are stored in their places -/
  placed : b.Placed
  /-- which are the places listed -/
  listed : ∀ s p, ∀ o ∈ (b.side s).level p, b.orderLookup.lookup o.orderId = some (p, s)
  /-- and no id is there twice -/
  nodup : ∀ s p, (((b.side s).level p).map AuctionOrder.orderId).Nodup

/-- The stored ids are those of orders at some place. -/
theorem mem_orderIds {b : AuctionBook} {id : Nat} :
    id ∈ b.orderIds ↔ ∃ s p, ∃ o ∈ (b.side s).level p, o.orderId = id := by
  have hdrain : ∀ o, o ∈ b.clearBook.1 ↔ ∃ s, o ∈ (b.side s).drain := by
    intro o
    rw [clearBook_fst, List.mem_append]
    constructor
    · exact fun h => h.elim (fun ho => ⟨.buy, ho⟩) fun ho => ⟨.sell, ho⟩
    · rintro ⟨s | s, ho⟩
      · exact .inl ho
      · exact .inr ho
  simp only [orderIds, List.mem_map, hdrain, BookSide.mem_drain]
  exact ⟨fun ⟨o, ⟨s, p, ho⟩, hid⟩ => ⟨s, p, o, ho, hid⟩,
    fun ⟨s, p, o, ho, hid⟩ => ⟨o, ⟨s, p, ho⟩, hid⟩⟩

/-! ## What a cancellation leaves stored and listed -/

section Cancel

variable {b b' : AuctionBook} {id : Nat} {found : Option AuctionOrder}

/-- A cancellation adds nothing. -/
theorem cancelOrder_sublist (h : b.cancelOrder id = (found, b')) (s : Side) (p : Int) :
    ((b'.side s).level p).Sublist ((b.side s).level p) := by
  cases cancelOrder_cases h with
  | unlisted _ => exact List.Sublist.refl _
  | missing _ _ _ sides => rw [sides s]
  | @taken _ s' _ _ _ side _ other =>
      by_cases hs : s = s'
      · subst hs
        exact side.sublist p
      · rw [other s hs]

/-- The places of other ids stay listed. -/
theorem lookup_cancelOrder_of_ne (h : b.cancelOrder id = (found, b')) {x : Nat} (hx : x ≠ id) :
    b'.orderLookup.lookup x = b.orderLookup.lookup x := by
  cases cancelOrder_cases h with
  | unlisted _ => rfl
  | missing _ _ lookup' _ => rw [lookup', AList.lookup_erase_ne hx]
  | taken _ _ lookup' _ => rw [lookup', AList.lookup_erase_ne hx]

/-- What is returned had the id. -/
theorem orderId_of_cancelOrder {removed : AuctionOrder}
    (h : b.cancelOrder id = (some removed, b')) : removed.orderId = id := by
  cases cancelOrder_cases h with
  | taken _ side _ _ => exact side.id_eq

/-- **Cancelling an id leaves no order with it**, under the invariant. -/
theorem Listed.orderId_ne_of_cancelOrder (inv : b.Listed) (h : b.cancelOrder id = (found, b'))
    (s : Side) (p : Int) : ∀ o ∈ (b'.side s).level p, o.orderId ≠ id := by
  intro o ho hid
  have hmem := (cancelOrder_sublist h s p).subset ho
  have hlisted := inv.listed s p o hmem
  rw [hid] at hlisted
  -- the order is stored where its id was listed, so it is the one that was looked for
  cases cancelOrder_cases h with
  | unlisted lookup =>
      rw [lookup] at hlisted
      cases hlisted
  | missing lookup absent _ _ =>
      rw [lookup] at hlisted
      obtain ⟨rfl, rfl⟩ := Prod.mk.inj (Option.some.inj hlisted)
      exact absent o hmem hid
  | @taken price s' _ _ lookup side _ _ =>
      rw [lookup] at hlisted
      obtain ⟨rfl, rfl⟩ := Prod.mk.inj (Option.some.inj hlisted)
      obtain ⟨before, after, hsplit, hbefore, hafter⟩ := side.split
      have hnodup := inv.nodup s' price
      rw [hsplit, List.map_append, List.map_cons, List.nodup_middle] at hnodup
      rw [hafter] at ho
      apply (List.nodup_cons.mp hnodup).1
      rw [← List.map_append, side.id_eq, ← hid]
      exact List.mem_map_of_mem ho

/-- **Cancelling keeps the invariant.** -/
theorem Listed.cancelOrder (inv : b.Listed) (h : b.cancelOrder id = (found, b')) : b'.Listed where
  placed s p o ho := inv.placed s p o ((cancelOrder_sublist h s p).subset ho)
  listed s p o ho := by
    rw [lookup_cancelOrder_of_ne h (inv.orderId_ne_of_cancelOrder h s p o ho)]
    exact inv.listed s p o ((cancelOrder_sublist h s p).subset ho)
  nodup s p := (inv.nodup s p).sublist ((cancelOrder_sublist h s p).map _)

/-- **Under the invariant every order can be cancelled.** -/
theorem Listed.cancellable (inv : b.Listed) : b.Cancellable := by
  intro s o ho
  obtain ⟨p, hp⟩ := BookSide.mem_drain.mp ho
  obtain ⟨rfl, rfl⟩ := inv.placed s p o hp
  refine ⟨inv.listed _ _ o hp, fun s' hmem => ?_⟩
  obtain ⟨p', hp'⟩ := BookSide.mem_drain.mp hmem
  exact inv.orderId_ne_of_cancelOrder rfl s' p' o hp' rfl

end Cancel

/-! ## What an addition does to the invariant -/

/-- What is stored after an addition was stored, or is the order. -/
theorem mem_level_addOrder {b : AuctionBook} {o x : AuctionOrder} {s : Side} {p : Int} :
    x ∈ ((b.addOrder o).side s).level p ↔
      x ∈ (b.side s).level p ∨ (x = o ∧ p = o.priceTicks ∧ s = o.side) := by
  by_cases hs : s = o.side
  · subst hs
    rw [side_addOrder_self, BookSide.mem_level_push]
    simp
  · rw [side_addOrder_of_ne b o hs]
    simp [hs]

/-- **An addition with a new id keeps the invariant.** -/
theorem Listed.addOrder {b : AuctionBook} (inv : b.Listed) {o : AuctionOrder}
    (fresh : o.orderId ∉ b.orderIds) : (b.addOrder o).Listed where
  placed := inv.placed.apply (.add o)
  listed s p x hx := by
    rw [orderLookup_addOrder]
    obtain hx | ⟨rfl, rfl, rfl⟩ := mem_level_addOrder.mp hx
    · have hne : x.orderId ≠ o.orderId := fun hid => fresh (mem_orderIds.mpr ⟨s, p, x, hx, hid⟩)
      rw [AList.lookup_insert_ne hne]
      exact inv.listed s p x hx
    · exact AList.lookup_insert _
  nodup s p := by
    by_cases hs : s = o.side
    · subst hs
      rw [side_addOrder_self]
      by_cases hp : p = o.priceTicks
      · subst hp
        rw [BookSide.level_push_self, List.map_append, List.map_singleton, ← List.concat_eq_append,
          List.nodup_concat]
        refine ⟨fun hmem => fresh ?_, inv.nodup _ _⟩
        obtain ⟨x, hx, hid⟩ := List.mem_map.mp hmem
        exact mem_orderIds.mpr ⟨_, _, x, hx, hid⟩
      · rw [BookSide.level_push_of_ne _ _ hp]
        exact inv.nodup _ p
    · rw [side_addOrder_of_ne b o hs]
      exact inv.nodup s p

/-- Cancelling an id that is stored twice at one place takes the older order out and leaves
the newer one. -/
theorem mem_level_cancelOrder_addOrder {b : AuctionBook} {o x : AuctionOrder}
    (hx : x ∈ (b.side o.side).level o.priceTicks) (hid : x.orderId = o.orderId) :
    o ∈ (((b.addOrder o).cancelOrder o.orderId).2.side o.side).level o.priceTicks := by
  have hlevel : ((b.addOrder o).side o.side).level o.priceTicks =
      (b.side o.side).level o.priceTicks ++ [o] := by
    rw [side_addOrder_self, BookSide.level_push_self]
  have hlookup : (b.addOrder o).orderLookup.lookup o.orderId = some (o.priceTicks, o.side) := by
    rw [orderLookup_addOrder, AList.lookup_insert]
  rcases hcancel : (b.addOrder o).cancelOrder o.orderId with ⟨found, b'⟩
  cases cancelOrder_cases hcancel with
  | unlisted lookup =>
      rw [hlookup] at lookup
      cases lookup
  | missing lookup absent _ _ =>
      rw [hlookup] at lookup
      obtain ⟨rfl, rfl⟩ := Prod.mk.inj (Option.some.inj lookup)
      rw [hlevel] at absent
      exact absurd rfl (absent o List.mem_concat_self)
  | @taken price s' removed _ lookup side _ _ =>
      rw [hlookup] at lookup
      obtain ⟨rfl, rfl⟩ := Prod.mk.inj (Option.some.inj lookup)
      obtain ⟨before, after, hsplit, hbefore, hafter⟩ := side.split
      rw [hlevel] at hsplit
      rw [hafter]
      -- the first order with the id is not the last of the level, since `x` is before that
      obtain ⟨rfl, -, -⟩ | ⟨after', rfl, -⟩ := concat_eq_split hsplit
      · exact absurd hid (hbefore x hx)
      · exact List.mem_append_right _ List.mem_concat_self

/-- **An addition with a stored id** loses an order to cancellation. -/
theorem notMem_orderIds_of_cancellable {b : AuctionBook} (placed : b.Placed) {o : AuctionOrder}
    (h : (b.addOrder o).Cancellable) : o.orderId ∉ b.orderIds := by
  intro hid
  obtain ⟨s, p, x, hx, hxid⟩ := mem_orderIds.mp hid
  obtain ⟨rfl, rfl⟩ := placed s p x hx
  -- the older order is listed where the new one is, so they share a level
  have hlisted := (h _ x (BookSide.mem_drain.mpr ⟨_, mem_level_addOrder.mpr (.inl hx)⟩)).1
  rw [hxid, orderLookup_addOrder, AList.lookup_insert] at hlisted
  obtain ⟨hprice, hside⟩ := Prod.mk.inj (Option.some.inj hlisted)
  rw [← hprice, ← hside] at hx
  have ho : o ∈ ((b.addOrder o).side o.side).drain :=
    BookSide.mem_drain.mpr ⟨_, mem_level_addOrder.mpr (.inr ⟨rfl, rfl, rfl⟩)⟩
  apply (h o.side o ho).2 o.side
  exact BookSide.mem_drain.mpr ⟨_, mem_level_cancelOrder_addOrder hx hxid⟩

/-- A book without orders has all of them listed. -/
theorem listed_of_empty {b : AuctionBook} (placed : b.Placed) (h : ∀ s, b.side s = .empty) :
    b.Listed where
  placed := placed
  listed s p o ho := by
    rw [h s] at ho
    exact absurd ho List.not_mem_nil
  nodup s p := by
    rw [h s]
    exact List.nodup_nil

/-- The invariant along a call of the book. -/
theorem Listed.apply {b : AuctionBook} (inv : b.Listed) {op : Op}
    (fresh : ∀ o, op = .add o → o.orderId ∉ b.orderIds) : (b.apply op).Listed := by
  cases op with
  | add o => exact inv.addOrder (fresh o rfl)
  | cancel id => exact inv.cancelOrder rfl
  | modify id q price =>
      simp only [AuctionBook.apply, modifyOrder_book]
      rcases hcancel : b.cancelOrder id with ⟨removed | removed, b'⟩
      · exact inv.cancelOrder hcancel
      · -- the order comes back under the id that the cancellation freed
        have hremoved : removed.orderId = id := orderId_of_cancelOrder hcancel
        apply (inv.cancelOrder hcancel).addOrder
        intro hmem
        obtain ⟨s, p, x, hx, hid⟩ := mem_orderIds.mp hmem
        exact inv.orderId_ne_of_cancelOrder hcancel s p x hx (hid.trans hremoved)
  | clear => exact listed_of_empty (inv.placed.apply .clear) (side_clearBook b)

/-- A new book is one. -/
theorem listed_new (symbol : Symbol) : (new symbol).Listed :=
  listed_of_empty (placed_new symbol) (side_new symbol)

end AuctionBook

/-! ## Runs of the engine -/

namespace AuctionEngine

/-- Every resting order of every symbol can be cancelled. -/
def Cancellable (e : AuctionEngine) : Prop := ∀ symbol, (e.book symbol).Cancellable

/-- A submission that the phase of its symbol lets through has an id that is not stored in
the book of the symbol. -/
def FreshId (e : AuctionEngine) : Call → Prop
  | .submit order => (e.state order.symbol).getPhase.allowsOrderEntry = true →
      order.orderId ∉ (e.book order.symbol).orderIds
  | _ => True

/-- Only a submission adds an order to a book. -/
theorem bookOp_eq_add {e : AuctionEngine} {s : Symbol} {call : Call} {o : AuctionOrder}
    (h : e.bookOp s call = some (.add o)) :
    call = .submit o ∧ o.symbol = s ∧ (e.state s).getPhase.allowsOrderEntry = true := by
  cases call <;> simp [bookOp] at h
  obtain ⟨hsymbol, hphase, rfl⟩ := h
  exact ⟨rfl, hsymbol, hphase⟩

/-- **One call keeps the invariant of every book** if the id is fresh. -/
theorem listed_apply {e : AuctionEngine} {call : Call} (inv : ∀ s, (e.book s).Listed)
    (fresh : e.FreshId call) (s : Symbol) : ((e.apply call).book s).Listed := by
  rw [book_apply]
  cases hop : e.bookOp s call with
  | none => exact inv s
  | some op =>
      apply (inv s).apply
      rintro o rfl
      obtain ⟨rfl, rfl, hphase⟩ := bookOp_eq_add hop
      exact fresh hphase

/-- **A call after which every order can be cancelled** had a fresh id. -/
theorem freshId_of_cancellable {e : AuctionEngine} {call : Call} (inv : ∀ s, (e.book s).Listed)
    (h : (e.apply call).Cancellable) : e.FreshId call := by
  cases call with
  | submit order =>
      intro hphase
      have hbook := h order.symbol
      rw [book_apply, bookOp, if_pos rfl, if_pos hphase] at hbook
      exact AuctionBook.notMem_orderIds_of_cancellable (inv order.symbol).placed hbook
  | _ => trivial

/-- **When every resting order stays cancellable.**  In a run of the engine the id of every
resting order is listed under its price and side, and cancelling it removes the order, in
every state exactly if no accepted submission had an id that was stored for its symbol. -/
theorem cancellable_iff_freshIds (maxSymbols : Nat) (calls : List Call) :
    AllSteps step (fun e call _ => e.FreshId call) (new maxSymbols) calls ↔
      AllStates step Cancellable (new maxSymbols) calls := by
  have safe (e : AuctionEngine) (inv : ∀ s, (e.book s).Listed) : e.Cancellable :=
    fun s => (inv s).cancellable
  apply allSteps_iff_allStates safe
  · rintro e call e' inv hstep fresh
    obtain rfl : e.apply call = e' := Option.some.inj hstep
    exact listed_apply inv fresh
  · rintro e call e' inv hstep safe
    obtain rfl : e.apply call = e' := Option.some.inj hstep
    exact freshId_of_cancellable inv safe
  · exact fun s => AuctionBook.listed_new s

/-- Two accepted submissions with one id at two prices: the first order is listed under the
price of the second. -/
theorem not_forall_cancellable :
    ¬ ∀ maxSymbols calls, AllStates step Cancellable (new maxSymbols) calls := by
  let symbol : Symbol := .replicate 12 65
  let order (price : Int) : AuctionOrder := ⟨1, symbol, .buy, price, 10, 10, 0, false, none⟩
  intro h
  have hsteps := (h 1 [.start symbol, .submit (order 100), .submit (order 101)]).2
  have hend := (allSteps_cons_some rfl).mp ((allSteps_cons_some rfl).mp
    ((allSteps_cons_some rfl).mp hsteps).2).2
  have hlisted := (hend.1 symbol .buy (order 100) (by decide +kernel)).1
  revert hlisted
  decide +kernel

end AuctionEngine

end StopTrading.Auction
