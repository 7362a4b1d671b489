import StopTrading.Library.KeyedProfile
import StopTrading.Library.Transition
import Mathlib.Data.List.Sort
import Mathlib.Algebra.Order.BigOperators.Group.List

/-!
# The auction book

`AuctionBook` keeps the orders of each side in lists by price, the volume at each price
in a second map, and a third map from order ids to the price and side an order was last
added at.  Amounts are `u64`; the additions wrap.

The second map is a summary of the first, written by code of its own on every path.
`AuctionBook.consistent_of_levelsFit`: it is the right summary after every run in which
the volumes fit, whatever ids are used.  `take_spec` and `cancelOrder_cases` say what
cancelling does; everything about cancelling and modifying is read off them.

The ordered maps are `AList`s; their order shows in `clearBook` only.

### What is load-bearing

All that calls do to a side is `push` and `take`.  An invariant of the sides is therefore proved
from two facts (`forall_side_apply`), one about each, whatever the calls are; `Placed`,
`Consistent` and the two invariants of the modules behind this one are obtained that way.

`take` removes the first order with the id from the list at the listed price, and subtracts the
quantity of *that* order from the volume there.  This is why consistency survives repeated ids:
the wrong order may go, but its own quantity goes with it.  The subtraction saturates, which
shows only where the entry was too small before.

The hypothesis `LevelsFit` is about what is stored and not about what is recorded, so it can be
checked against the orders alone.
-/

namespace StopTrading.Auction

open Transition KeyedProfile

/-- A symbol: `[u8; 12]`. -/
abbrev Symbol := Vector UInt8 12

/-- `Side`. -/
inductive Side where
  | buy
  | sell
  deriving Repr, DecidableEq

/-- `AuctionOrder`. -/
structure AuctionOrder where
  orderId : Nat
  symbol : Symbol
  side : Side
  priceTicks : Int
  quantity : Nat
  remainingQty : Nat
  timestampNs : Nat
  isMarketOrder : Bool
  stpGroupId : Option Nat
  deriving DecidableEq

/-- The quantity of some orders. -/
def totalQuantity (orders : List AuctionOrder) : Nat := (orders.map AuctionOrder.quantity).sum

/-- No orders have no quantity, -/
@[simp]
theorem totalQuantity_nil : totalQuantity [] = 0 := rfl

/-- some orders and others have both, -/
@[simp]
theorem totalQuantity_append (l l' : List AuctionOrder) :
    totalQuantity (l ++ l') = totalQuantity l + totalQuantity l' := by
  rw [totalQuantity, List.map_append, List.sum_append]
  rfl

/-- as have one order and others. -/
@[simp]
theorem totalQuantity_cons (o : AuctionOrder) (l : List AuctionOrder) :
    totalQuantity (o :: l) = o.quantity + totalQuantity l := List.sum_cons

/-- One side of the book: `buy_orders` and `buy_volume_by_price`, or the two maps of
the sells. -/
structure BookSide where
  orders : AList fun _ : Int => List AuctionOrder
  volumeByPrice : AList fun _ : Int => Nat

namespace BookSide

/-- A side without orders. -/
def empty : BookSide := ⟨∅, ∅⟩

/-- The orders stored at a price. -/
def level (t : BookSide) (price : Int) : List AuctionOrder := (t.orders.lookup price).getD []

/-- The volume entry of a price, 0 if absent. -/
def volume (t : BookSide) (price : Int) : Nat := (t.volumeByPrice.lookup price).getD 0

/-- What `add_order` does to the order's side. -/
def push (t : BookSide) (o : AuctionOrder) : BookSide where
  orders := t.orders.insert o.priceTicks (t.level o.priceTicks ++ [o])
  volumeByPrice :=
    t.volumeByPrice.insert o.priceTicks ((t.volume o.priceTicks + o.quantity) % 2 ^ 64)

/-- The volume update of `cancel_order`: subtract, saturating, and drop an entry that
comes to zero. -/
def reduceVolume (volumes : AList fun _ : Int => Nat) (price : Int) (quantity : Nat) :
    AList fun _ : Int => Nat :=
  match volumes.lookup price with
  | none => volumes
  | some vol =>
      if vol - quantity = 0 then volumes.erase price else volumes.insert price (vol - quantity)

/-- What `cancel_order` does to the side its lookup names: the first order with the id
at the price goes. -/
def take (t : BookSide) (price : Int) (orderId : Nat) : Option (AuctionOrder × BookSide) :=
  match t.orders.lookup price with
  | none => none
  | some orders =>
      match orders.find? fun o => o.orderId = orderId with
      | none => none
      | some removed =>
          some (removed,
            { orders := t.orders.insert price (orders.eraseP fun o => o.orderId = orderId)
              volumeByPrice := reduceVolume t.volumeByPrice price removed.quantity })

/-- The orders of a side by ascending price (`drain`). -/
def drain (t : BookSide) : List AuctionOrder :=
  (t.orders.entries.insertionSort fun e e' => e.1 ≤ e'.1).flatMap fun e => e.2

/-- The orders of a side are those at some price. -/
theorem mem_drain {t : BookSide} {o : AuctionOrder} : o ∈ t.drain ↔ ∃ p, o ∈ t.level p := by
  unfold drain level
  rw [List.mem_flatMap]
  constructor
  · rintro ⟨e, he, ho⟩
    rw [List.mem_insertionSort] at he
    refine ⟨e.1, ?_⟩
    rw [AList.mem_lookup_iff.mpr he]
    exact ho
  · rintro ⟨p, ho⟩
    cases hlookup : t.orders.lookup p with
    | none =>
        rw [hlookup] at ho
        exact absurd ho (List.not_mem_nil)
    | some l =>
        rw [hlookup] at ho
        exact ⟨⟨p, l⟩, (List.mem_insertionSort _).mpr (AList.mem_lookup_iff.mp hlookup), ho⟩

/-! ### Adding -/

/-- An order is appended to those at its price, -/
@[simp]
theorem level_push_self (t : BookSide) (o : AuctionOrder) :
    (t.push o).level o.priceTicks = t.level o.priceTicks ++ [o] := by
  simp only [level, push, AList.lookup_insert, Option.getD_some]

/-- and to no others; -/
theorem level_push_of_ne (t : BookSide) (o : AuctionOrder) {p : Int} (h : p ≠ o.priceTicks) :
    (t.push o).level p = t.level p := by
  simp only [level, push, AList.lookup_insert_ne h]

/-- its quantity is added to the volume there, in 64 bits, -/
@[simp]
theorem volume_push_self (t : BookSide) (o : AuctionOrder) :
    (t.push o).volume o.priceTicks = (t.volume o.priceTicks + o.quantity) % 2 ^ 64 := by
  simp only [volume, push, AList.lookup_insert, Option.getD_some]

/-- and to no other. -/
theorem volume_push_of_ne (t : BookSide) (o : AuctionOrder) {p : Int} (h : p ≠ o.priceTicks) :
    (t.push o).volume p = t.volume p := by
  simp only [volume, push, AList.lookup_insert_ne h]

/-- What is stored after a push was stored, or is the order. -/
theorem mem_level_push {t : BookSide} {o x : AuctionOrder} {p : Int} :
    x ∈ (t.push o).level p ↔ x ∈ t.level p ∨ (x = o ∧ p = o.priceTicks) := by
  by_cases hp : p = o.priceTicks
  · subst hp
    simp
  · rw [level_push_of_ne t o hp]
    simp [hp]

/-! ### Taking an order out -/

/-- The volume goes down, to zero at most, -/
theorem volume_reduceVolume_self (t : BookSide) (price : Int) (quantity : Nat) :
    ((reduceVolume t.volumeByPrice price quantity).lookup price).getD 0 =
      t.volume price - quantity := by
  unfold reduceVolume volume
  cases h : t.volumeByPrice.lookup price with
  | none => simp [h]
  | some vol =>
      by_cases hzero : vol - quantity = 0
      · simp [hzero]
      · simp [hzero]

/-- and the entries of other prices stay. -/
theorem lookup_reduceVolume_of_ne (volumes : AList fun _ : Int => Nat) {p price : Int}
    (quantity : Nat) (h : p ≠ price) :
    (reduceVolume volumes price quantity).lookup p = volumes.lookup p := by
  unfold reduceVolume
  cases volumes.lookup price with
  | none => rfl
  | some vol =>
      dsimp only
      split
      · exact AList.lookup_erase_ne h
      · exact AList.lookup_insert_ne h

/-- What taking an order out does to a side. -/
structure Taken (t : BookSide) (price : Int) (orderId : Nat) (removed : AuctionOrder)
    (t' : BookSide) : Prop where
  /-- the order has the id -/
  id_eq : removed.orderId = orderId
  /-- The first order with the id leaves its level. -/
  split : ∃ before after, t.level price = before ++ removed :: after ∧
    (∀ o ∈ before, o.orderId ≠ orderId) ∧ t'.level price = before ++ after
  /-- other prices keep their orders -/
  level_of_ne : ∀ p, p ≠ price → t'.level p = t.level p
  /-- its quantity goes from the volume of its price -/
  volume_self : t'.volume price = t.volume price - removed.quantity
  /-- and from no other -/
  volume_of_ne : ∀ p, p ≠ price → t'.volume p = t.volume p

/-- Where nothing is taken, no order has the id. -/
theorem take_eq_none {t : BookSide} {price : Int} {orderId : Nat}
    (h : t.take price orderId = none) : ∀ o ∈ t.level price, o.orderId ≠ orderId := by
  unfold take at h
  unfold level
  cases hlookup : t.orders.lookup price with
  | none => exact fun _ ho => absurd ho List.not_mem_nil
  | some orders =>
      rw [hlookup] at h
      cases hfind : orders.find? fun o => o.orderId = orderId with
      | none => simpa using hfind
      | some removed => simp [hfind] at h

/-- **What `take` returns.** -/
theorem take_spec {t t' : BookSide} {price : Int} {orderId : Nat} {removed : AuctionOrder}
    (h : t.take price orderId = some (removed, t')) : t.Taken price orderId removed t' := by
  unfold take at h
  cases hlookup : t.orders.lookup price with
  | none => simp [hlookup] at h
  | some orders =>
      rw [hlookup] at h
      cases hfind : orders.find? fun o => o.orderId = orderId with
      | none => simp [hfind] at h
      | some r =>
          simp only [hfind, Option.some.injEq, Prod.mk.injEq] at h
          obtain ⟨rfl, rfl⟩ := h
          have hlevel : t.level price = orders := by rw [BookSide.level, hlookup]; rfl
          obtain ⟨hid, before, after, hsplit, hbefore⟩ := List.find?_eq_some_iff_append.mp hfind
          have hbefore' : ∀ o ∈ before, o.orderId ≠ orderId := by simpa using hbefore
          refine ⟨of_decide_eq_true hid, ⟨before, after, hlevel.trans hsplit, hbefore', ?_⟩,
            fun p hp => ?_, volume_reduceVolume_self t price r.quantity, fun p hp => ?_⟩
          · rw [BookSide.level, AList.lookup_insert, Option.getD_some, hsplit,
              List.eraseP_append_right _ (by simpa using hbefore')]
            exact congrArg (before ++ ·) (List.eraseP_cons_of_pos hid)
          · rw [BookSide.level, AList.lookup_insert_ne hp]
            rfl
          · rw [BookSide.volume, lookup_reduceVolume_of_ne _ _ hp]
            rfl

namespace Taken

variable {t t' : BookSide} {price : Int} {id : Nat} {removed : AuctionOrder}

/-- Nothing is added by taking, and the order stays. -/
theorem sublist (h : t.Taken price id removed t') (p : Int) :
    (t'.level p).Sublist (t.level p) := by
  by_cases hp : p = price
  · obtain ⟨before, after, hsplit, -, hafter⟩ := h.split
    rw [hp, hsplit, hafter]
    exact (List.sublist_cons_self removed after).append_left before
  · rw [h.level_of_ne p hp]

end Taken

end BookSide

/-- `AuctionBook`. -/
structure AuctionBook where
  symbol : Symbol
  buy : BookSide
  sell : BookSide
  /-- `order_lookup`: the price and side of an id. -/
  orderLookup : AList fun _ : Nat => Int × Side

namespace AuctionBook

/-- `AuctionBook::new`. -/
def new (symbol : Symbol) : AuctionBook := ⟨symbol, .empty, .empty, ∅⟩

/-- The maps of a side. -/
def side (b : AuctionBook) : Side → BookSide
  | .buy => b.buy
  | .sell => b.sell

/-- Write the maps of a side. -/
def setSide (b : AuctionBook) : Side → BookSide → AuctionBook
  | .buy, t => { b with buy := t }
  | .sell, t => { b with sell := t }

/-- `add_order`. -/
def addOrder (b : AuctionBook) (order : AuctionOrder) : AuctionBook :=
  { b.setSide order.side ((b.side order.side).push order) with
    orderLookup := b.orderLookup.insert order.orderId (order.priceTicks, order.side) }

/-- `cancel_order`.  The lookup entry goes first, whether or not an order is found. -/
def cancelOrder (b : AuctionBook) (orderId : Nat) : Option AuctionOrder × AuctionBook :=
  match b.orderLookup.lookup orderId with
  | none => (none, b)
  | some (price, side) =>
      let unlisted := { b with orderLookup := b.orderLookup.erase orderId }
      match (b.side side).take price orderId with
      | none => (none, unlisted)
      | some (removed, t) => (some removed, unlisted.setSide side t)

/-- `modify_order`: cancel and add again, with the new quantity and price. -/
def modifyOrder (b : AuctionBook) (orderId newQuantity : Nat) (newPrice : Option Int) :
    Bool × AuctionBook :=
  match b.orderLookup.lookup orderId with
  | none => (false, b)
  | some _ =>
      match b.cancelOrder orderId with
      | (none, b') => (false, b')
      | (some removed, b') =>
          let modified := { removed with
            quantity := newQuantity
            remainingQty := newQuantity
            priceTicks := newPrice.getD removed.priceTicks }
          (true, b'.addOrder modified)

/-- `clear_book`: all orders, buys first. -/
def clearBook (b : AuctionBook) : List AuctionOrder × AuctionBook :=
  (b.buy.drain ++ b.sell.drain, { b with buy := .empty, sell := .empty, orderLookup := ∅ })

/-- The calls that write a book. -/
inductive Op where
  | add (order : AuctionOrder)
  | cancel (orderId : Nat)
  | modify (orderId newQuantity : Nat) (newPrice : Option Int)
  | clear
  deriving DecidableEq

/-- What a call leaves behind. -/
def apply (b : AuctionBook) : Op → AuctionBook
  | .add order => b.addOrder order
  | .cancel orderId => (b.cancelOrder orderId).2
  | .modify orderId newQuantity newPrice => (b.modifyOrder orderId newQuantity newPrice).2
  | .clear => b.clearBook.2

/-- Every call is possible. -/
def step (b : AuctionBook) (op : Op) : Option AuctionBook := some (b.apply op)

/-- A new book has empty sides. -/
@[simp]
theorem side_new (symbol : Symbol) (s : Side) : (new symbol).side s = .empty := by
  cases s <;> rfl

/-- What is written for a side is read, -/
@[simp]
theorem side_setSide_self (b : AuctionBook) (s : Side) (t : BookSide) :
    (b.setSide s t).side s = t := by
  cases s <;> rfl

/-- the other side is as it was, -/
theorem side_setSide_of_ne (b : AuctionBook) {s s' : Side} (t : BookSide) (h : s' ≠ s) :
    (b.setSide s t).side s' = b.side s' := by
  cases s <;> cases s' <;> first | rfl | exact absurd rfl h

/-- and so is the lookup. -/
@[simp]
theorem orderLookup_setSide (b : AuctionBook) (s : Side) (t : BookSide) :
    (b.setSide s t).orderLookup = b.orderLookup := by
  cases s <;> rfl

/-- The lookup is apart from the sides. -/
@[simp]
theorem side_unlisted (b : AuctionBook) (l : AList fun _ : Nat => Int × Side) (s : Side) :
    ({ b with orderLookup := l } : AuctionBook).side s = b.side s := by
  cases s <;> rfl

/-- A cleared book has empty sides. -/
@[simp]
theorem side_clearBook (b : AuctionBook) (s : Side) : b.clearBook.2.side s = .empty := by
  cases s <;> rfl

/-- `clear_book` returns the orders of both sides. -/
theorem clearBook_fst (b : AuctionBook) :
    b.clearBook.1 = (b.side .buy).drain ++ (b.side .sell).drain := rfl

/-- An addition pushes on the side of the order, -/
theorem side_addOrder_self (b : AuctionBook) (o : AuctionOrder) :
    (b.addOrder o).side o.side = (b.side o.side).push o := by
  unfold addOrder
  rw [side_unlisted, side_setSide_self]

/-- and not on the other, -/
theorem side_addOrder_of_ne (b : AuctionBook) (o : AuctionOrder) {s : Side} (h : s ≠ o.side) :
    (b.addOrder o).side s = b.side s := by
  unfold addOrder
  rw [side_unlisted, side_setSide_of_ne _ _ h]

/-- and lists the id under its place, whatever it was listed under. -/
@[simp]
theorem orderLookup_addOrder (b : AuctionBook) (o : AuctionOrder) :
    (b.addOrder o).orderLookup = b.orderLookup.insert o.orderId (o.priceTicks, o.side) := rfl

/-! ## What a cancellation does -/

/-- The three outcomes of `cancel_order`. -/
inductive Cancelled (b : AuctionBook) (id : Nat) : Option AuctionOrder → AuctionBook → Prop
  /-- The id is not listed. -/
  | unlisted (lookup : b.orderLookup.lookup id = none) : Cancelled b id none b
  /-- The id is listed but no order at the listed place has it. -/
  | missing {price : Int} {s : Side} {b' : AuctionBook}
      (lookup : b.orderLookup.lookup id = some (price, s))
      (absent : ∀ o ∈ (b.side s).level price, o.orderId ≠ id)
      (lookup' : b'.orderLookup = b.orderLookup.erase id)
      (sides : ∀ s', b'.side s' = b.side s') : Cancelled b id none b'
  /-- The first order with the id at the listed place goes. -/
  | taken {price : Int} {s : Side} {removed : AuctionOrder} {b' : AuctionBook}
      (lookup : b.orderLookup.lookup id = some (price, s))
      (side : (b.side s).Taken price id removed (b'.side s))
      (lookup' : b'.orderLookup = b.orderLookup.erase id)
      (other : ∀ s', s' ≠ s → b'.side s' = b.side s') : Cancelled b id (some removed) b'

/-- **What `cancel_order` returns and leaves behind.** -/
theorem cancelOrder_cases {b b' : AuctionBook} {id : Nat} {found : Option AuctionOrder}
    (h : b.cancelOrder id = (found, b')) : Cancelled b id found b' := by
  unfold cancelOrder at h
  cases hlookup : b.orderLookup.lookup id with
  | none =>
      rw [hlookup] at h
      obtain ⟨rfl, rfl⟩ := Prod.mk.inj h
      exact .unlisted hlookup
  | some place =>
      obtain ⟨price, s⟩ := place
      rw [hlookup] at h
      dsimp only at h
      cases htake : (b.side s).take price id with
      | none =>
          rw [htake] at h
          obtain ⟨rfl, rfl⟩ := Prod.mk.inj h
          exact .missing hlookup (BookSide.take_eq_none htake) rfl fun s' => side_unlisted b _ s'
      | some result =>
          obtain ⟨removed, t⟩ := result
          rw [htake] at h
          obtain ⟨rfl, rfl⟩ := Prod.mk.inj h
          refine .taken hlookup ?_ (orderLookup_setSide _ s t) fun s' h => ?_
          · rw [side_setSide_self]
            exact BookSide.take_spec htake
          · rw [side_setSide_of_ne _ t h, side_unlisted]

/-- A modification is a cancellation, followed by an addition if an order was found. -/
theorem modifyOrder_book (b : AuctionBook) (id q : Nat) (price : Option Int) :
    (b.modifyOrder id q price).2 =
      (b.cancelOrder id).1.elim (b.cancelOrder id).2 fun removed =>
        (b.cancelOrder id).2.addOrder { removed with
          quantity := q
          remainingQty := q
          priceTicks := price.getD removed.priceTicks } := by
  unfold modifyOrder
  cases hlookup : b.orderLookup.lookup id with
  | none => simp only [cancelOrder, hlookup, Option.elim_none]
  | some place =>
      dsimp only
      obtain ⟨removed | _, b'⟩ := b.cancelOrder id <;> rfl

/-- **An invariant of the book** is kept by every call when cancelling and clearing keep
it and an addition does if it leads to a state with `G`. -/
theorem apply_keeps {I G : AuctionBook → Prop}
    (add : ∀ b o, I b → G (b.addOrder o) → I (b.addOrder o))
    (cancel : ∀ b id, I b → I (b.cancelOrder id).2)
    (clear : ∀ b, I b → I b.clearBook.2) (b : AuctionBook) (op : Op) (hI : I b)
    (hG : G (b.apply op)) : I (b.apply op) := by
  cases op with
  | add o => exact add b o hI hG
  | cancel id => exact cancel b id hI
  | modify id q price =>
      simp only [apply, modifyOrder_book] at hG ⊢
      cases hfound : (b.cancelOrder id).1 with
      | none => exact cancel b id hI
      | some removed =>
          rw [hfound] at hG
          exact add _ _ (cancel b id hI) hG
  | clear => exact clear b hI

section Sides

variable {J : Side → BookSide → Prop} {b : AuctionBook}

/-- An addition changes one side, -/
theorem forall_side_addOrder {o : AuctionOrder} (h : ∀ s, J s (b.side s))
    (hpush : J o.side ((b.side o.side).push o)) (s : Side) : J s ((b.addOrder o).side s) := by
  by_cases hs : s = o.side
  · rw [hs, side_addOrder_self]
    exact hpush
  · rw [side_addOrder_of_ne b o hs]
    exact h s

/-- and so does a cancellation, the one that the lookup names. -/
theorem forall_side_cancelOrder {id : Nat} (h : ∀ s, J s (b.side s))
    (htaken : ∀ s t t' price removed, J s t → BookSide.Taken t price id removed t' → J s t')
    (s : Side) : J s ((b.cancelOrder id).2.side s) := by
  rcases hresult : b.cancelOrder id with ⟨found, b'⟩
  cases cancelOrder_cases hresult with
  | unlisted _ => exact h s
  | missing _ _ _ sides => exact sides s ▸ h s
  | @taken price s' removed b' _ side _ other =>
      by_cases hs : s = s'
      · subst hs
        exact htaken s _ _ price removed (h s) side
      · rw [other s hs]
        exact h s

/-- **An invariant of the sides** is kept when pushing and taking keep it. -/
theorem forall_side_apply {G : AuctionBook → Prop} (empty : ∀ s, J s .empty)
    (push : ∀ (b : AuctionBook) (o : AuctionOrder), J o.side (b.side o.side) →
      G (b.addOrder o) → J o.side ((b.side o.side).push o))
    (taken : ∀ s t t' price id removed, J s t → BookSide.Taken t price id removed t' → J s t')
    (b : AuctionBook) (op : Op) (h : ∀ s, J s (b.side s)) (hG : G (b.apply op)) :
    ∀ s, J s ((b.apply op).side s) := by
  apply apply_keeps (I := fun b => ∀ s, J s (b.side s)) _ _ _ b op h hG
  · exact fun b o hb hadd => forall_side_addOrder hb (push b o (hb o.side) hadd)
  · exact fun b id hb => forall_side_cancelOrder hb fun s t t' p r => taken s t t' p id r
  · intro b _ s
    rw [side_clearBook]
    exact empty s

end Sides

/-- Every order is stored on its own side at its own price. -/
def Placed (b : AuctionBook) : Prop :=
  ∀ s p, ∀ o ∈ (b.side s).level p, o.priceTicks = p ∧ o.side = s

/-- Nothing is stored. -/
theorem placed_new (symbol : Symbol) : (new symbol).Placed := by
  intro s p o ho
  rw [side_new] at ho
  exact absurd ho List.not_mem_nil

/-- What a call stores, it stores in its place. -/
theorem Placed.apply {b : AuctionBook} (h : b.Placed) (op : Op) : (b.apply op).Placed := by
  apply forall_side_apply (J := fun s t => ∀ p, ∀ o ∈ t.level p, o.priceTicks = p ∧ o.side = s)
    (G := fun _ => True) _ _ _ b op h trivial
  · exact fun _ _ _ ho => absurd ho List.not_mem_nil
  · intro b o hb _ p x hx
    obtain hx | ⟨rfl, rfl⟩ := BookSide.mem_level_push.mp hx
    · exact hb p x hx
    · exact ⟨rfl, rfl⟩
  · intro s t t' price id removed ht taken p o ho
    exact ht p o ((taken.sublist p).subset ho)

end AuctionBook

/-! ## The volumes summarise the orders -/

namespace BookSide

/-- The quantity stored at a price. -/
def levelQuantity (t : BookSide) (price : Int) : Nat := totalQuantity (t.level price)

/-- Every volume entry is the quantity stored at its price. -/
def Consistent (t : BookSide) : Prop := ∀ p, t.volume p = t.levelQuantity p

/-- No stored quantity of a price leaves `u64`. -/
def LevelsFit (t : BookSide) : Prop := ∀ p, t.levelQuantity p < 2 ^ 64

/-- Only the prices with a list have to be looked at. -/
theorem levelsFit_iff (t : BookSide) :
    (∀ e ∈ t.orders.entries, totalQuantity e.2 < 2 ^ 64) ↔ t.LevelsFit := by
  constructor
  · intro h p
    unfold levelQuantity level
    cases hlookup : t.orders.lookup p with
    | none => exact Nat.two_pow_pos 64
    | some l => exact h ⟨p, l⟩ (AList.mem_lookup_iff.mp hlookup)
  · intro h e he
    have hp := h e.1
    rwa [levelQuantity, level, AList.mem_lookup_iff.mpr he] at hp

instance (t : BookSide) : Decidable t.LevelsFit := decidable_of_iff _ t.levelsFit_iff

/-- A push adds to the quantity at the price of the order, -/
@[simp]
theorem levelQuantity_push_self (t : BookSide) (o : AuctionOrder) :
    (t.push o).levelQuantity o.priceTicks = t.levelQuantity o.priceTicks + o.quantity := by
  simp [levelQuantity]

/-- and nowhere else. -/
theorem levelQuantity_push_of_ne (t : BookSide) (o : AuctionOrder) {p : Int}
    (h : p ≠ o.priceTicks) : (t.push o).levelQuantity p = t.levelQuantity p := by
  rw [levelQuantity, level_push_of_ne t o h]
  rfl

/-- Taking an order out takes its quantity out, -/
theorem Taken.levelQuantity_self {t t' : BookSide} {price : Int} {id : Nat}
    {removed : AuctionOrder} (h : t.Taken price id removed t') :
    t'.levelQuantity price = t.levelQuantity price - removed.quantity := by
  obtain ⟨before, after, hsplit, -, hafter⟩ := h.split
  simp only [levelQuantity, hsplit, hafter, totalQuantity_append, totalQuantity_cons]
  omega

/-- and no other. -/
theorem Taken.levelQuantity_of_ne {t t' : BookSide} {price : Int} {id : Nat}
    {removed : AuctionOrder} (h : t.Taken price id removed t') {p : Int} (hp : p ≠ price) :
    t'.levelQuantity p = t.levelQuantity p := by
  rw [levelQuantity, h.level_of_ne p hp]
  rfl

/-- **Pushing keeps a side consistent** if the price's quantity still fits. -/
theorem Consistent.push {t : BookSide} (h : t.Consistent) {o : AuctionOrder}
    (fits : (t.push o).levelQuantity o.priceTicks < 2 ^ 64) : (t.push o).Consistent := by
  intro p
  by_cases hp : p = o.priceTicks
  · subst hp
    rw [levelQuantity_push_self] at fits ⊢
    rw [volume_push_self, h o.priceTicks, Nat.mod_eq_of_lt fits]
  · rw [volume_push_of_ne t o hp, levelQuantity_push_of_ne t o hp]
    exact h p

/-- **Taking an order out keeps a side consistent**, whichever order it is. -/
theorem Consistent.taken {t t' : BookSide} (h : t.Consistent) {price : Int} {id : Nat}
    {removed : AuctionOrder} (ht : t.Taken price id removed t') : t'.Consistent := by
  intro p
  by_cases hp : p = price
  · rw [hp, ht.volume_self, ht.levelQuantity_self, h price]
  · rw [ht.volume_of_ne p hp, ht.levelQuantity_of_ne hp]
    exact h p

end BookSide

namespace AuctionBook

/-- **Each side and price**: the volume entry is the stored quantity. -/
def Consistent (b : AuctionBook) : Prop := ∀ s, (b.side s).Consistent

/-- The stored quantities of both sides fit. -/
def LevelsFit (b : AuctionBook) : Prop := b.buy.LevelsFit ∧ b.sell.LevelsFit

instance (b : AuctionBook) : Decidable b.LevelsFit := inferInstanceAs (Decidable (_ ∧ _))

/-- A side of a book that fits fits. -/
theorem LevelsFit.side {b : AuctionBook} (h : b.LevelsFit) (s : Side) : (b.side s).LevelsFit := by
  cases s
  · exact h.1
  · exact h.2

/-- Nothing is stored, and nothing recorded. -/
theorem consistent_new (symbol : Symbol) : (new symbol).Consistent := by
  intro s p
  rw [side_new]
  rfl

/-- One call keeps the book consistent if the volumes it leads to fit. -/
theorem Consistent.apply {b : AuctionBook} (h : b.Consistent) {op : Op}
    (fits : (b.apply op).LevelsFit) : (b.apply op).Consistent := by
  apply forall_side_apply (J := fun _ t => t.Consistent) _ _ _ b op h fits
  · exact fun _ _ => rfl
  · intro b o hb hfits
    have hside := hfits.side o.side
    rw [side_addOrder_self] at hside
    exact hb.push (hside o.priceTicks)
  · exact fun _ _ _ _ _ _ ht taken => ht.taken taken

/-- One step of a run. -/
theorem Consistent.step {b b' : AuctionBook} {op : Op} (h : b.Consistent)
    (hstep : step b op = some b') (fits : b'.LevelsFit) : b'.Consistent := by
  obtain rfl : b.apply op = b' := Option.some.inj hstep
  exact h.apply fits

/-- **The volume maps summarise the stored orders** after every run of calls in which no
stored quantity of a price leaves `u64`, whatever the ids. -/
theorem consistent_of_levelsFit (symbol : Symbol) (ops : List Op)
    (fits : AllSteps step (fun _ _ b => b.LevelsFit) (new symbol) ops) :
    AllStates step Consistent (new symbol) ops := by
  apply AllStates.of_invariant (fun _ h => h) _ (consistent_new symbol) fits
  exact fun _ _ _ h hstep hfits => h.step hstep hfits

/-- A run with a repeated id, a modification of one of the two orders and a
cancellation. -/
theorem consistent_repeatedId :
    let order (id : Nat) (s : Side) (price : Int) (q : Nat) : AuctionOrder :=
      ⟨id, .replicate 12 32, s, price, q, q, 0, false, none⟩
    let ops : List Op := [.add (order 1 .buy 100 10), .add (order 1 .sell 90 5),
      .modify 1 7 (some 95), .cancel 1, .add (order 2 .buy 100 4)]
    AllStates step Consistent (new (.replicate 12 32)) ops :=
  consistent_of_levelsFit _ _ (by decide +kernel)

end AuctionBook

end StopTrading.Auction
