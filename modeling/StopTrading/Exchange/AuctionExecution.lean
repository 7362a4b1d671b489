import StopTrading.Exchange.AuctionEngine

/-!
# What an auction executes

`execute_auction` calculates the clearing price and returns the whole book as executed,
whatever the price is.  `ExecutesExactly` is what the pair should satisfy: every order
returned is marketable at the price, the buys and the sells each add up to the executable
volume, and without a price nothing is returned.

A price clears the whole book when no order is on its wrong side and as much is bid as is
offered.  Then it is the first price scanned with the full volume, and nothing is left
over there (`best_of_clears`), so it is the one chosen.  Conversely exact totals leave no
room between the volume entries and the stored quantities, which bound them
(`AuctionBook.Covered`).  So an execution is exact just on an empty book and on a
balanced one (`executesExactly_iff_balanced`), in every state the engine reaches.

### What is load-bearing

`execute_auction` does not match anything.  It computes a price, takes all orders out of the book
and returns them.  So the question is for which books returning everything is right, and the
answer has to come from what the computed price says about the whole book.

For books that are balanced, `best_of_clears` shows that the scan chooses the price at which all
is executable, though other prices may do as well.  For the converse it is not enough to look at
stored orders: the executable volume is computed from the volume entries.  These never exceed
what is stored (`Covered`, which needs no hypothesis, as a wrapped entry is only smaller), so if
the executable volume is all that is stored, the entries must have been right.
-/

namespace StopTrading.Auction

open Transition KeyedProfile Crossing MachineInt

/-- Orders without quantity have none in all. -/
theorem totalQuantity_eq_zero_iff {l : List AuctionOrder} :
    totalQuantity l = 0 ↔ ∀ o ∈ l, o.quantity = 0 := by
  rw [totalQuantity, List.sum_eq_zero_iff, List.forall_mem_map]

/-! ## The volume entries never exceed the orders -/

namespace BookSide

/-- No volume entry exceeds the quantity stored at its price. -/
def Covered (t : BookSide) : Prop := ∀ p, t.volume p ≤ t.levelQuantity p

/-- A wrapped addition stays covered. -/
theorem Covered.push {t : BookSide} (h : t.Covered) (o : AuctionOrder) : (t.push o).Covered := by
  intro p
  by_cases hp : p = o.priceTicks
  · subst hp
    rw [volume_push_self, levelQuantity_push_self]
    exact (Nat.mod_le _ _).trans (Nat.add_le_add_right (h _) _)
  · rw [volume_push_of_ne t o hp, levelQuantity_push_of_ne t o hp]
    exact h p

/-- Taking an order out keeps the entries below what is stored, -/
theorem Covered.taken {t t' : BookSide} (h : t.Covered) {price : Int} {id : Nat}
    {removed : AuctionOrder} (ht : t.Taken price id removed t') : t'.Covered := by
  intro p
  by_cases hp : p = price
  · rw [hp, ht.volume_self, ht.levelQuantity_self]
    exact Nat.sub_le_sub_right (h price) _
  · rw [ht.volume_of_ne p hp, ht.levelQuantity_of_ne hp]
    exact h p

/-- price by price. -/
theorem Covered.volumes_le {t : BookSide} (h : t.Covered) (p : Int) :
    t.volumes p ≤ t.quantities p := by
  rw [volumes_apply, quantities_apply]
  exact h p

/-- **A covered side whose entries add up to the stored quantity** is consistent. -/
theorem Covered.consistent {t : BookSide} (h : t.Covered)
    (hwhole : totalQuantity t.drain ≤ whole t.volumes) : t.Consistent := by
  rw [consistent_iff]
  exact eq_of_le_of_whole_le h.volumes_le (t.whole_quantities ▸ hwhole)

/-- A side is empty if it is so at every price. -/
theorem drain_eq_nil_iff {t : BookSide} : t.drain = [] ↔ ∀ p, t.level p = [] := by
  simp only [List.eq_nil_iff_forall_not_mem, mem_drain, not_exists]
  exact forall_comm

/-- The prices with a stored quantity are those of the orders with one. -/
theorem mem_support_quantities {t : BookSide} {p : Int} :
    p ∈ t.quantities.support ↔ ∃ o ∈ t.level p, 0 < o.quantity := by
  rw [Finsupp.mem_support_iff, quantities_apply, levelQuantity, Ne, totalQuantity_eq_zero_iff]
  simp [Nat.pos_iff_ne_zero]

end BookSide

namespace AuctionBook

/-- No volume entry of the book exceeds what is stored. -/
def Covered (b : AuctionBook) : Prop := ∀ s, (b.side s).Covered

/-- Nothing is recorded. -/
theorem covered_new (symbol : Symbol) : (new symbol).Covered := by
  intro s p
  rw [side_new]
  rfl

/-- Every call keeps the entries below what is stored. -/
theorem Covered.apply {b : AuctionBook} (h : b.Covered) (op : Op) : (b.apply op).Covered := by
  apply forall_side_apply (J := fun _ t => t.Covered) (G := fun _ => True) _ _ _ b op h trivial
  · exact fun _ _ => Nat.zero_le _
  · exact fun b o hb _ => hb.push o
  · exact fun _ _ _ _ _ _ ht taken => ht.taken taken

/-- Both invariants hold where a run ends. -/
theorem placed_and_covered_of_run {symbol : Symbol} {ops : List Op} {b : AuctionBook}
    (hrun : run step (new symbol) ops = some b) : b.Placed ∧ b.Covered := by
  have keep : ∀ b op b', b.Placed ∧ b.Covered → step b op = some b' → b'.Placed ∧ b'.Covered := by
    rintro b op b' ⟨hplaced, hcovered⟩ hstep
    obtain rfl : b.apply op = b' := Option.some.inj hstep
    exact ⟨hplaced.apply op, hcovered.apply op⟩
  exact run_of_invariant' keep ⟨placed_new symbol, covered_new symbol⟩ hrun

/-- An executable volume is no more than the sells stored. -/
theorem executableVol_le {b : AuctionBook} (covered : b.Covered) (price : Int) :
    b.executableVol price ≤ totalQuantity b.sell.drain :=
  calc b.executableVol price
    _ ≤ b.totalSellVol price := min_le_right _ _
    _ = supply b.sell.volumes price % 2 ^ 64 := b.totalSellVol_eq price
    _ ≤ supply b.sell.volumes price := Nat.mod_le _ _
    _ ≤ supply b.sell.quantities price := mass_le_of_le (covered .sell).volumes_le _
    _ ≤ whole b.sell.quantities := supply_le_whole _ price
    _ = totalQuantity b.sell.drain := b.sell.whole_quantities

/-! ## The price that clears the whole book -/

/-- Where nothing is left over on either side the imbalance is zero. -/
theorem candidate_meanImbalance {b : AuctionBook} {r : Int}
    (hbuy : b.totalBuyVol r = b.executableVol r) (hsell : b.totalSellVol r = b.executableVol r) :
    (b.candidate r).meanImbalance = 0 := by
  have hzero (n : Nat) : imbalance n n = 0 := by
    rw [imbalance, sub_self]
    rfl
  simp only [Candidate.meanImbalance, candidate, hbuy, hsell, hzero]
  rfl

section Clears

variable {b : AuctionBook} {q : Int}

/-- The volumes of the scan when `q` clears the book: everything at `q`, never more, and
less below. -/
theorem executableVol_of_clears (h : b.Consistent) (fits : b.TotalsFit)
    (clears : Clears b.buy.quantities b.sell.quantities q) :
    (b.executableVol q = whole b.sell.quantities) ∧
      (∀ r, b.totalBuyVol r ≤ whole b.sell.quantities ∧
        b.totalSellVol r ≤ whole b.sell.quantities) ∧
      ∀ r, r < q → b.executableVol r < whole b.sell.quantities := by
  refine ⟨?_, fun r => ?_, fun r hr => ?_⟩
  · obtain ⟨hbuy, hsell⟩ := totalVol_eq_of_consistent h fits q
    rw [executableVol, hbuy, hsell, clears.demand_eq, clears.supply_eq, min_self]
  · obtain ⟨hbuy, hsell⟩ := totalVol_eq_of_consistent h fits r
    rw [hbuy, hsell]
    exact ⟨clears.balanced ▸ demand_le_whole _ r, supply_le_whole _ r⟩
  · obtain ⟨-, hsell⟩ := totalVol_eq_of_consistent h fits r
    rw [executableVol, hsell]
    exact (min_le_right _ _).trans_lt (clears.supply_lt hr)

/-- Once everything trades with nothing left over, no later price replaces it. -/
theorem scan_candidate_of_clears (h : b.Consistent) (fits : b.TotalsFit)
    (clears : Clears b.buy.quantities b.sell.quantities q) (r : Int) :
    b.scan (b.candidate q) r = b.candidate q := by
  obtain ⟨hq, hle, -⟩ := executableVol_of_clears h fits clears
  have hvolume : (b.candidate q).volume = whole b.sell.quantities := hq
  obtain ⟨-, hlt | ⟨htie, himb⟩⟩ | ⟨hscan, -⟩ := b.scan_cases (b.candidate q) r
  · rw [hvolume] at hlt
    exact absurd ((min_le_left _ _).trans (hle r).1) hlt.not_ge
  · -- at a price with the same volume nothing is left over either
    rw [hvolume] at htie
    have hexact (p : Int) (hp : whole b.sell.quantities = b.executableVol p) :
        (b.candidate p).meanImbalance = 0 :=
      candidate_meanImbalance (le_antisymm (hp ▸ (hle p).1) (min_le_left _ _))
        (le_antisymm (hp ▸ (hle p).2) (min_le_right _ _))
    rw [hexact r htie, hexact q hq.symm] at himb
    exact absurd himb (lt_irrefl 0)
  · exact hscan

/-- **A price that clears the whole book is the one chosen.** -/
theorem best_of_clears (h : b.Consistent) (fits : b.TotalsFit)
    (clears : Clears b.buy.quantities b.sell.quantities q) : b.best = b.candidate q := by
  obtain ⟨hq, -, hlt⟩ := executableVol_of_clears h fits clears
  have hmem : q ∈ b.prices := by
    rw [mem_prices]
    refine .inr (BookSide.mem_keys_of_mem_support ?_)
    rw [b.sell.consistent_iff.mp (h .sell)]
    exact clears.offered
  obtain ⟨before, after, hsplit⟩ := List.append_of_mem hmem
  have hsorted := b.pairwise_prices
  rw [hsplit, List.pairwise_append] at hsorted
  have hbefore : ∀ r ∈ before, r < q := fun r hr => hsorted.2.2 r hr q List.mem_cons_self
  have hscanned : b.Scanned before (before.foldl b.scan ⟨0, 0, 0, 0⟩) :=
    b.scanned_nil.foldl before
  have hless : (before.foldl b.scan ⟨0, 0, 0, 0⟩).volume < b.executableVol q := by
    by_cases hzero : (before.foldl b.scan ⟨0, 0, 0, 0⟩).volume = 0
    · rw [hzero, hq]
      exact clears.whole_pos
    · obtain ⟨hprice, hvolume⟩ := hscanned.attained hzero
      rw [← hvolume, hq]
      exact hlt _ (hbefore _ hprice)
  have hfirst : b.scan (before.foldl b.scan ⟨0, 0, 0, 0⟩) q = b.candidate q := by
    obtain ⟨hscan, -⟩ | ⟨-, hge, -⟩ := b.scan_cases (before.foldl b.scan ⟨0, 0, 0, 0⟩) q
    · exact hscan
    · exact absurd hless hge.not_gt
  rw [best, hsplit, List.foldl_append, List.foldl_cons, hfirst]
  exact List.foldl_fixed' (scan_candidate_of_clears h fits clears) after

end Clears

end AuctionBook

/-! ## Exact executions -/

/-- An order that can trade at a price. -/
def AuctionOrder.Marketable (o : AuctionOrder) (price : Int) : Prop :=
  match o.side with
  | .buy => price ≤ o.priceTicks
  | .sell => o.priceTicks ≤ price

instance (o : AuctionOrder) (price : Int) : Decidable (o.Marketable price) :=
  match h : o.side with
  | .buy => decidable_of_iff (price ≤ o.priceTicks) (by rw [AuctionOrder.Marketable, h])
  | .sell => decidable_of_iff (o.priceTicks ≤ price) (by rw [AuctionOrder.Marketable, h])

/-- The quantity on one side of some orders. -/
def sideQuantity (orders : List AuctionOrder) (s : Side) : Nat :=
  totalQuantity (orders.filter fun o => o.side = s)

/-- **Only executable orders are returned**, and as much as is executable; without a
price, none. -/
def ExecutesExactly : Option IndicativePrice × List AuctionOrder → Prop
  | (none, orders) => orders = []
  | (some ip, orders) => (∀ o ∈ orders, o.Marketable ip.priceTicks) ∧
      sideQuantity orders .buy = ip.executableVolume ∧
      sideQuantity orders .sell = ip.executableVolume

instance : ∀ result, Decidable (ExecutesExactly result)
  | (none, orders) => inferInstanceAs (Decidable (orders = []))
  | (some _, _) => inferInstanceAs (Decidable (_ ∧ _))

namespace AuctionBook

/-- No order is stored. -/
def Empty (b : AuctionBook) : Prop := ∀ s p, (b.side s).level p = []

/-- A book that one price clears: its volumes are right, as much is bid as is offered,
and no order is on the wrong side of some sell that has a quantity. -/
structure Balanced (b : AuctionBook) : Prop where
  /-- the volumes are right -/
  consistent : b.Consistent
  /-- as much is bid as is offered -/
  totals : totalQuantity b.buy.drain = totalQuantity b.sell.drain
  /-- and it fits a word -/
  fits : totalQuantity b.sell.drain < 2 ^ 64
  /-- all buys pay what all sells ask for -/
  price : ∃ o ∈ b.sell.drain, 0 < o.quantity ∧ (∀ x ∈ b.buy.drain, o.priceTicks ≤ x.priceTicks) ∧
    ∀ x ∈ b.sell.drain, x.priceTicks ≤ o.priceTicks

/-- Nothing is returned of an empty book only. -/
theorem clearBook_eq_nil_iff {b : AuctionBook} : b.clearBook.1 = [] ↔ b.Empty := by
  rw [clearBook_fst, List.append_eq_nil_iff, BookSide.drain_eq_nil_iff, BookSide.drain_eq_nil_iff]
  constructor
  · rintro ⟨hbuy, hsell⟩ (_ | _)
    · exact hbuy
    · exact hsell
  · exact fun h => ⟨h .buy, h .sell⟩

section Placed

variable {b : AuctionBook} (placed : b.Placed)

include placed

/-- The orders of a side are of that side. -/
theorem side_of_mem_drain {s : Side} {o : AuctionOrder} (ho : o ∈ (b.side s).drain) :
    o.side = s := by
  obtain ⟨p, hp⟩ := BookSide.mem_drain.mp ho
  exact (placed s p o hp).2

/-- The prices with a stored quantity, read off the orders. -/
theorem mem_support_quantities {s : Side} {k : Int} :
    k ∈ (b.side s).quantities.support ↔
      ∃ o ∈ (b.side s).drain, o.priceTicks = k ∧ 0 < o.quantity := by
  rw [BookSide.mem_support_quantities]
  constructor
  · rintro ⟨o, ho, hpos⟩
    exact ⟨o, BookSide.mem_drain.mpr ⟨k, ho⟩, (placed s k o ho).1, hpos⟩
  · rintro ⟨o, ho, rfl, hpos⟩
    obtain ⟨p, hp⟩ := BookSide.mem_drain.mp ho
    obtain ⟨rfl, -⟩ := placed s p o hp
    exact ⟨o, hp, hpos⟩

/-- What is true of the prices of all orders is true of the prices with a quantity. -/
theorem forall_mem_support {s : Side} {P : Int → Prop}
    (h : ∀ o ∈ (b.side s).drain, P o.priceTicks) : ∀ k ∈ (b.side s).quantities.support, P k := by
  intro k hk
  obtain ⟨o, ho, rfl, -⟩ := (mem_support_quantities placed).mp hk
  exact h o ho

/-- The orders returned are those of the two sides. -/
theorem sideQuantity_clearBook (s : Side) :
    sideQuantity b.clearBook.1 s = totalQuantity (b.side s).drain := by
  have hkeep (s : Side) : (b.side s).drain.filter (fun o => o.side = s) = (b.side s).drain := by
    rw [List.filter_eq_self]
    exact fun o ho => decide_eq_true (side_of_mem_drain placed ho)
  have hdrop (s s' : Side) (hne : s' ≠ s) :
      (b.side s').drain.filter (fun o => o.side = s) = [] := by
    rw [List.filter_eq_nil_iff]
    exact fun o ho heq => hne ((side_of_mem_drain placed ho).symm.trans (of_decide_eq_true heq))
  rw [sideQuantity, clearBook_fst, List.filter_append]
  cases s with
  | buy => rw [hkeep .buy, hdrop .buy .sell (by decide), List.append_nil]
  | sell => rw [hkeep .sell, hdrop .sell .buy (by decide), List.nil_append]

/-- All orders are marketable at a price if no buy is below it and no sell above. -/
theorem forall_marketable_clearBook (price : Int) :
    (∀ o ∈ b.clearBook.1, o.Marketable price) ↔
      (∀ o ∈ b.buy.drain, price ≤ o.priceTicks) ∧ ∀ o ∈ b.sell.drain, o.priceTicks ≤ price := by
  rw [clearBook, List.forall_mem_append]
  apply and_congr
  · refine forall₂_congr fun o ho => ?_
    rw [AuctionOrder.Marketable, side_of_mem_drain placed (s := .buy) ho]
  · refine forall₂_congr fun o ho => ?_
    rw [AuctionOrder.Marketable, side_of_mem_drain placed (s := .sell) ho]

/-- **A balanced book executes exactly**: the price of the sell clears it. -/
theorem Balanced.executesExactly (h : b.Balanced) :
    ExecutesExactly (b.calculateIndicativePrice, b.clearBook.1) := by
  obtain ⟨o, ho, hpos, hbuys, hsells⟩ := h.price
  have fits : b.TotalsFit := ⟨h.totals ▸ h.fits, h.fits⟩
  have clears : Clears b.buy.quantities b.sell.quantities o.priceTicks := by
    refine ⟨(mem_support_quantities placed (s := .sell)).mpr ⟨o, ho, rfl, hpos⟩,
      forall_mem_support placed (s := .sell) hsells,
      forall_mem_support placed (s := .buy) hbuys, ?_⟩
    rw [BookSide.whole_quantities, BookSide.whole_quantities, h.totals]
  have hbest := best_of_clears h.consistent fits clears
  have hvolume : b.best.volume = totalQuantity b.sell.drain := by
    rw [hbest, ← BookSide.whole_quantities]
    exact (executableVol_of_clears h.consistent fits clears).1
  cases hip : b.calculateIndicativePrice with
  | none =>
      rw [calculateIndicativePrice_eq_none_iff, hvolume, ← BookSide.whole_quantities] at hip
      exact absurd hip clears.whole_pos.ne'
  | some ip =>
      obtain ⟨hprice, hexecutable, -, -⟩ := calculateIndicativePrice_eq_some hip
      rw [hbest] at hprice
      refine ⟨(forall_marketable_clearBook placed _).mpr ?_, ?_, ?_⟩
      · rw [hprice]
        exact ⟨hbuys, hsells⟩
      · rw [sideQuantity_clearBook placed, hexecutable, hvolume]
        exact h.totals
      · rw [sideQuantity_clearBook placed, hexecutable, hvolume]
        rfl

omit placed in
/-- **What is executable bounds what the volume entries show**, so a book whose stored
quantities are all executable at a price is consistent and its totals fit. -/
theorem consistent_of_executable (covered : b.Covered) {price : Int}
    (hbuy : totalQuantity b.buy.drain = b.executableVol price)
    (hsell : totalQuantity b.sell.drain = b.executableVol price) :
    b.Consistent ∧ b.TotalsFit := by
  have hbuyVol : totalQuantity b.buy.drain ≤ b.totalBuyVol price := hbuy ▸ min_le_left _ _
  have hsellVol : totalQuantity b.sell.drain ≤ b.totalSellVol price := hsell ▸ min_le_right _ _
  rw [totalBuyVol_eq] at hbuyVol
  rw [totalSellVol_eq] at hsellVol
  constructor
  · rintro (_ | _)
    · apply (covered .buy).consistent
      exact hbuyVol.trans ((Nat.mod_le _ _).trans (demand_le_whole _ _))
    · apply (covered .sell).consistent
      exact hsellVol.trans ((Nat.mod_le _ _).trans (supply_le_whole _ _))
  · constructor
    · exact hbuyVol.trans_lt (Nat.mod_lt _ (Nat.two_pow_pos 64))
    · exact hsellVol.trans_lt (Nat.mod_lt _ (Nat.two_pow_pos 64))

/-- **A book that executes exactly at a price is balanced.** -/
theorem balanced_of_executesExactly (covered : b.Covered) {ip : IndicativePrice}
    (hip : b.calculateIndicativePrice = some ip)
    (h : ExecutesExactly (some ip, b.clearBook.1)) : b.Balanced := by
  obtain ⟨hprice, hexecutable, hne, hvolume⟩ := calculateIndicativePrice_eq_some hip
  obtain ⟨hmarketable, hbuy, hsell⟩ := h
  rw [sideQuantity_clearBook placed] at hbuy hsell
  obtain ⟨hbuys, hsells⟩ := (forall_marketable_clearBook placed _).mp hmarketable
  obtain ⟨consistent, fits⟩ :=
    consistent_of_executable covered (hbuy.trans hvolume.symm) (hsell.trans hvolume.symm)
  have totals : totalQuantity b.buy.drain = totalQuantity b.sell.drain := hbuy.trans hsell.symm
  obtain ⟨q, clears⟩ : ∃ q, Clears b.buy.quantities b.sell.quantities q := by
    apply Clears.exists_of_separated (p := ip.priceTicks)
    · exact forall_mem_support placed (s := .sell) hsells
    · exact forall_mem_support placed (s := .buy) hbuys
    · rw [BookSide.whole_quantities, BookSide.whole_quantities, totals]
    · rw [BookSide.whole_quantities]
      exact fun hzero => hne (hexecutable ▸ hsell.symm.trans hzero)
  have hq_eq : ip.priceTicks = q := by
    rw [hprice, best_of_clears consistent fits clears]
    rfl
  obtain ⟨o, ho, rfl, hpos⟩ := (mem_support_quantities placed (s := .sell)).mp clears.offered
  rw [hq_eq] at hbuys hsells
  exact ⟨consistent, totals, fits.2, o, ho, hpos, hbuys, hsells⟩

/-- **When an execution is exact**: nothing is stored, or one price clears the book. -/
theorem executesExactly_iff_balanced (covered : b.Covered) :
    ExecutesExactly (b.calculateIndicativePrice, b.clearBook.1) ↔ b.Empty ∨ b.Balanced := by
  rw [← clearBook_eq_nil_iff]
  constructor
  · intro h
    cases hip : b.calculateIndicativePrice with
    | none => exact .inl (by rwa [hip] at h)
    | some ip => exact .inr (balanced_of_executesExactly placed covered hip (by rwa [hip] at h))
  · rintro (hempty | hbalanced)
    · have hnone : b.calculateIndicativePrice = none := by
        rw [calculateIndicativePrice_eq_none_iff]
        by_contra hne
        obtain ⟨-, hvolume⟩ := b.scanned_best.attained hne
        have hle := executableVol_le covered b.best.price
        rw [(List.append_eq_nil_iff.mp hempty).2, hvolume] at hle
        exact hne (Nat.le_zero.mp hle)
      rw [hnone]
      exact hempty
    · exact hbalanced.executesExactly placed

end Placed

end AuctionBook

/-! ## Executions of the engine -/

namespace AuctionEngine

/-- The price is that of the book, and what is returned is all of it. -/
theorem executeAuction_fst (e : AuctionEngine) (symbol : Symbol) :
    (e.executeAuction symbol).1 =
      ((e.book symbol).calculateIndicativePrice, (e.book symbol).clearBook.1) :=
  e.withSymbol_fst _

/-- **When an auction returns only what is executable.**  In every state the engine
reaches, executing the auction of a symbol is exact just if the book of the symbol is
empty or balanced. -/
theorem executesExactly_iff {maxSymbols : Nat} {calls : List Call} {e : AuctionEngine}
    (hrun : run step (new maxSymbols) calls = some e) (symbol : Symbol) :
    ExecutesExactly (e.executeAuction symbol).1 ↔
      (e.book symbol).Empty ∨ (e.book symbol).Balanced := by
  obtain ⟨ops, hops⟩ := exists_bookRun symbol hrun
  rw [book_new] at hops
  obtain ⟨placed, covered⟩ := AuctionBook.placed_and_covered_of_run hops
  rw [executeAuction_fst]
  exact AuctionBook.executesExactly_iff_balanced placed covered

/-- As much is bid as is offered and 100 clears it. -/
theorem executesExactly_balanced :
    let symbol : Symbol := .replicate 12 65
    let order (id : Nat) (s : Side) (price : Int) (q : Nat) : AuctionOrder :=
      ⟨id, symbol, s, price, q, q, 0, false, none⟩
    let calls : List Call := [.start symbol, .submit (order 1 .buy 110 10),
      .submit (order 2 .sell 90 4), .submit (order 3 .sell 100 6)]
    ((calls.foldl apply (new 1)).book symbol).Balanced := by
  intro symbol order calls
  have hrun : run step (new 1) calls = some (calls.foldl apply (new 1)) := rfl
  apply Or.resolve_left ((executesExactly_iff hrun symbol).mp _)
  · rw [← AuctionBook.clearBook_eq_nil_iff]
    decide +kernel
  · decide +kernel

/-- More is bid than is offered: all of it is returned as executed. -/
theorem not_forall_executesExactly :
    ¬ ∀ maxSymbols calls e, run step (new maxSymbols) calls = some e →
      ∀ symbol, ExecutesExactly (e.executeAuction symbol).1 := by
  let symbol : Symbol := .replicate 12 65
  let order (id : Nat) (s : Side) (price : Int) (q : Nat) : AuctionOrder :=
    ⟨id, symbol, s, price, q, q, 0, false, none⟩
  let calls : List Call := [.start symbol, .submit (order 1 .buy 100 10),
    .submit (order 2 .sell 90 5)]
  have hrun : run step (new 1) calls = some (calls.foldl apply (new 1)) := rfl
  simp only [not_forall]
  refine ⟨1, calls, calls.foldl apply (new 1), hrun, symbol, ?_⟩
  decide +kernel

end AuctionEngine

end StopTrading.Auction
