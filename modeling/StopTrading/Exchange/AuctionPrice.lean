import StopTrading.Exchange.AuctionBook
import StopTrading.Library.Crossing
import StopTrading.Library.ListSplits
import StopTrading.Library.MachineInt

/-!
# The indicative price

`calculate_indicative_price` scans the prices that have a volume entry on either side,
in ascending order, and keeps the best candidate seen: the largest executable volume,
then the smaller imbalance.

`scanned_best` is the loop invariant: the candidate kept has the largest volume of the
prices scanned.  On a consistent book whose totals fit the volume of a candidate is the
crossed quantity of the stored orders (`executableVol_eq`), and no price does
better than some scanned one, so `indicativePrice_maximises`.

### What is load-bearing

The scan looks at finitely many prices, and the result is about all.  Between two prices with an
entry nothing changes, and `Crossing` of the library says that the crossed quantity of any price
is at most that of some price in the support.  The scan covers the support of both sides.

Volumes and quantities are profiles, functions from prices with finite support.  The totals of
the scan are computed in 64 bits and are those of the profiles only while they fit; `TotalsFit`
is a hypothesis on the stored orders, and a sum over part of them fits if the whole does.

The source returns early when one side has no entry.  This decides nothing that the scan would
not (`calculateIndicativePrice_eq_none_iff`), and so it does not occur in what follows.
-/

namespace StopTrading.Auction

open Transition KeyedProfile Crossing MachineInt

/-- `IndicativePrice`. -/
structure IndicativePrice where
  priceTicks : Int
  executableVolume : Nat
  buyImbalance : Int
  sellImbalance : Int
  totalBuyVolume : Nat
  totalSellVolume : Nat
  deriving Repr, DecidableEq

/-- The accumulators of the scan: `best_price`, `max_volume` and the two imbalances. -/
structure Candidate where
  price : Int
  volume : Nat
  buyImbalance : Int
  sellImbalance : Int
  deriving Repr, DecidableEq

/-- The figure by which ties are broken. -/
def Candidate.meanImbalance (c : Candidate) : Int :=
  (i64 (i64 |c.buyImbalance| + i64 |c.sellImbalance|)).tdiv 2

/-- `total as i64 - executable as i64`. -/
def imbalance (total executable : Nat) : Int := i64 (i64 total - i64 executable)

namespace AuctionBook

/-- The prices scanned: sorted, each once. -/
def prices (b : AuctionBook) : List Int :=
  ((b.buy.volumeByPrice.keys ++ b.sell.volumeByPrice.keys).insertionSort (· ≤ ·)).dedup

/-- The buy volume at or above a price. -/
def totalBuyVol (b : AuctionBook) (price : Int) : Nat :=
  sumWhere (fun p => price ≤ p) id b.buy.volumeByPrice % 2 ^ 64

/-- The sell volume at or below a price. -/
def totalSellVol (b : AuctionBook) (price : Int) : Nat :=
  sumWhere (fun p => p ≤ price) id b.sell.volumeByPrice % 2 ^ 64

/-- The executable volume at a price. -/
def executableVol (b : AuctionBook) (price : Int) : Nat :=
  min (b.totalBuyVol price) (b.totalSellVol price)

/-- What a scanned price has to offer. -/
def candidate (b : AuctionBook) (price : Int) : Candidate where
  price := price
  volume := b.executableVol price
  buyImbalance := imbalance (b.totalBuyVol price) (b.executableVol price)
  sellImbalance := imbalance (b.totalSellVol price) (b.executableVol price)

/-- One round of the scan. -/
def scan (b : AuctionBook) (best : Candidate) (price : Int) : Candidate :=
  let c := b.candidate price
  if best.volume < c.volume then c
  else if c.volume = best.volume ∧ 0 < best.volume then
    -- a tie goes to the strictly smaller imbalance, so else to the lower price
    if c.meanImbalance < best.meanImbalance then { c with volume := best.volume } else best
  else best

/-- The candidate the scan ends with. -/
def best (b : AuctionBook) : Candidate := b.prices.foldl b.scan ⟨0, 0, 0, 0⟩

/-- `calculate_indicative_price`. -/
def calculateIndicativePrice (b : AuctionBook) : Option IndicativePrice :=
  if b.buy.volumeByPrice.keys = [] ∨ b.sell.volumeByPrice.keys = [] then none
  else if b.best.volume = 0 then none
  else some
    { priceTicks := b.best.price
      executableVolume := b.best.volume
      buyImbalance := b.best.buyImbalance
      sellImbalance := b.best.sellImbalance
      totalBuyVolume := sumWhere (fun _ => true) id b.buy.volumeByPrice % 2 ^ 64
      totalSellVolume := sumWhere (fun _ => true) id b.sell.volumeByPrice % 2 ^ 64 }

/-! ## The scan -/

/-- **One round of the scan**: the new price wins, or what was best stays. -/
theorem scan_cases (b : AuctionBook) (best : Candidate) (price : Int) :
    (b.scan best price = b.candidate price ∧
        (best.volume < b.executableVol price ∨
          best.volume = b.executableVol price ∧
            (b.candidate price).meanImbalance < best.meanImbalance)) ∨
      (b.scan best price = best ∧ b.executableVol price ≤ best.volume ∧
        (b.executableVol price = best.volume → 0 < best.volume →
          best.meanImbalance ≤ (b.candidate price).meanImbalance)) := by
  have hvolume : (b.candidate price).volume = b.executableVol price := rfl
  simp only [scan, hvolume]
  by_cases hlt : best.volume < b.executableVol price
  · exact .inl ⟨if_pos hlt, .inl hlt⟩
  · have hle := Nat.le_of_not_lt hlt
    rw [if_neg hlt]
    by_cases htie : b.executableVol price = best.volume ∧ 0 < best.volume
    · rw [if_pos htie]
      by_cases himb : (b.candidate price).meanImbalance < best.meanImbalance
      · refine .inl ⟨?_, .inr ⟨htie.1.symm, himb⟩⟩
        rw [if_pos himb, ← htie.1, ← hvolume]
      · exact .inr ⟨if_neg himb, hle, fun _ _ => not_lt.mp himb⟩
    · exact .inr ⟨if_neg htie, hle, fun heq hpos => absurd ⟨heq, hpos⟩ htie⟩

/-- The loop invariant: nothing seen has a larger volume than the best candidate, which
is one of the prices seen unless its volume is zero. -/
structure Scanned (b : AuctionBook) (seen : List Int) (best : Candidate) : Prop where
  /-- nothing seen has more volume -/
  max : ∀ q ∈ seen, b.executableVol q ≤ best.volume
  /-- and the best candidate was seen -/
  attained : best.volume ≠ 0 → best.price ∈ seen ∧ b.executableVol best.price = best.volume

/-- One round of the scan, -/
theorem Scanned.scan {b : AuctionBook} {seen : List Int} {best : Candidate}
    (h : b.Scanned seen best) (price : Int) : b.Scanned (seen ++ [price]) (b.scan best price) := by
  have hforall {v : Nat} (hseen : ∀ q ∈ seen, b.executableVol q ≤ v)
      (hprice : b.executableVol price ≤ v) : ∀ q ∈ seen ++ [price], b.executableVol q ≤ v := by
    simpa [or_imp, forall_and] using ⟨hseen, hprice⟩
  obtain ⟨hscan, hwin⟩ | ⟨hscan, hle, -⟩ := b.scan_cases best price
  · have hge : best.volume ≤ b.executableVol price := hwin.elim le_of_lt fun h => le_of_eq h.1
    rw [hscan]
    refine ⟨hforall (fun q hq => (h.max q hq).trans hge) le_rfl, fun _ => ⟨?_, rfl⟩⟩
    exact List.mem_append_right _ (List.mem_singleton_self price)
  · rw [hscan]
    refine ⟨hforall h.max hle, fun hne => ?_⟩
    obtain ⟨hmem, heq⟩ := h.attained hne
    exact ⟨List.mem_append_left _ hmem, heq⟩

/-- all of them, -/
theorem Scanned.foldl {b : AuctionBook} (prices : List Int) {seen : List Int} {best : Candidate}
    (h : b.Scanned seen best) : b.Scanned (seen ++ prices) (prices.foldl b.scan best) :=
  ListSplits.foldl_of_seen b.Scanned (fun _ _ price h => h.scan price) prices h

/-- and the start, with nothing seen. -/
theorem scanned_nil (b : AuctionBook) : b.Scanned [] ⟨0, 0, 0, 0⟩ :=
  ⟨fun _ hq => absurd hq List.not_mem_nil, fun hne => absurd rfl hne⟩

/-- **What the scan ends with.** -/
theorem scanned_best (b : AuctionBook) : b.Scanned b.prices b.best :=
  b.scanned_nil.foldl b.prices

/-- A price is scanned if it has an entry on either side, -/
theorem mem_prices {b : AuctionBook} {p : Int} :
    p ∈ b.prices ↔ p ∈ b.buy.volumeByPrice.keys ∨ p ∈ b.sell.volumeByPrice.keys := by
  rw [prices, List.mem_dedup, List.mem_insertionSort, List.mem_append]

/-- each once, in ascending order. -/
theorem pairwise_prices (b : AuctionBook) : b.prices.Pairwise (· < ·) := by
  have hsorted : b.prices.Pairwise (· ≤ ·) :=
    (List.pairwise_insertionSort (· ≤ ·) _).sublist (List.dedup_sublist _)
  have hdistinct : b.prices.Pairwise (· ≠ ·) := List.nodup_dedup _
  exact (hsorted.and hdistinct).imp fun h => lt_of_le_of_ne h.1 h.2

end AuctionBook

/-! ## Volumes and quantities as profiles -/

namespace BookSide

/-- The volume entries of a side. -/
noncomputable def volumes (t : BookSide) : Int →₀ Nat := profile id t.volumeByPrice

/-- The stored quantities of a side. -/
noncomputable def quantities (t : BookSide) : Int →₀ Nat := profile totalQuantity t.orders

/-- The profile of the entries, -/
theorem volumes_apply (t : BookSide) (p : Int) : t.volumes p = t.volume p := by
  rw [volumes, profile_apply, amount, volume]
  cases t.volumeByPrice.lookup p <;> rfl

/-- and that of the stored quantities. -/
theorem quantities_apply (t : BookSide) (p : Int) : t.quantities p = t.levelQuantity p := by
  rw [quantities, profile_apply, amount, levelQuantity, level]
  cases t.orders.lookup p <;> rfl

/-- Consistency in one equation. -/
theorem consistent_iff (t : BookSide) : t.Consistent ↔ t.volumes = t.quantities := by
  simp only [Finsupp.ext_iff, volumes_apply, quantities_apply, Consistent]

/-- A price with a volume has an entry. -/
theorem mem_keys_of_mem_support {t : BookSide} {p : Int} (h : p ∈ t.volumes.support) :
    p ∈ t.volumeByPrice.keys :=
  mem_keys_of_amount_ne_zero (Finsupp.mem_support_iff.mp h)

/-- The stored quantity in all. -/
theorem whole_quantities (t : BookSide) : whole t.quantities = totalQuantity t.drain := by
  have hperm := (List.perm_insertionSort (fun e e' => e.1 ≤ e'.1) t.orders.entries).map
    fun e : Sigma fun _ : Int => List AuctionOrder => totalQuantity e.2
  rw [quantities, ← sum_eq_whole, ← hperm.sum_eq, drain]
  induction t.orders.entries.insertionSort fun e e' => e.1 ≤ e'.1 with
  | nil => rfl
  | cons e l ih => rw [List.map_cons, List.sum_cons, ih, List.flatMap_cons, totalQuantity_append]

end BookSide

namespace AuctionBook

/-- The stored quantity of each side fits. -/
def TotalsFit (b : AuctionBook) : Prop :=
  totalQuantity b.buy.drain < 2 ^ 64 ∧ totalQuantity b.sell.drain < 2 ^ 64

instance (b : AuctionBook) : Decidable b.TotalsFit := inferInstanceAs (Decidable (_ ∧ _))

/-- **What could trade at a price**: the stored buys at or above it against the stored
sells at or below it. -/
def executableAt (b : AuctionBook) (price : Int) : Nat :=
  min (sumWhere (fun p => price ≤ p) totalQuantity b.buy.orders)
    (sumWhere (fun p => p ≤ price) totalQuantity b.sell.orders)

/-- What could trade is the crossed quantity of the profiles. -/
theorem executableAt_eq_crossed (b : AuctionBook) (price : Int) :
    b.executableAt price = crossed b.buy.quantities b.sell.quantities price := by
  unfold executableAt crossed demand supply
  rw [sumWhere_eq_mass, sumWhere_eq_mass]
  congr 1
  · exact mass_congr fun k _ => decide_eq_true_iff
  · exact mass_congr fun k _ => decide_eq_true_iff

/-- The buys at or above a price are the demand there, -/
theorem totalBuyVol_eq (b : AuctionBook) (price : Int) :
    b.totalBuyVol price = demand b.buy.volumes price % 2 ^ 64 := by
  rw [totalBuyVol, sumWhere_eq_mass]
  congr 1
  exact mass_congr fun k _ => decide_eq_true_iff

/-- and the sells at or below it the supply. -/
theorem totalSellVol_eq (b : AuctionBook) (price : Int) :
    b.totalSellVol price = supply b.sell.volumes price % 2 ^ 64 := by
  rw [totalSellVol, sumWhere_eq_mass]
  congr 1
  exact mass_congr fun k _ => decide_eq_true_iff

/-- On a consistent book the scan's totals are those of the stored orders. -/
theorem totalVol_eq_of_consistent {b : AuctionBook} (h : b.Consistent) (fits : b.TotalsFit)
    (price : Int) :
    b.totalBuyVol price = demand b.buy.quantities price ∧
      b.totalSellVol price = supply b.sell.quantities price := by
  have hbuy : b.buy.volumes = b.buy.quantities := b.buy.consistent_iff.mp (h .buy)
  have hsell : b.sell.volumes = b.sell.quantities := b.sell.consistent_iff.mp (h .sell)
  rw [totalBuyVol_eq, totalSellVol_eq, hbuy, hsell]
  constructor
  · apply Nat.mod_eq_of_lt
    exact (demand_le_whole _ price).trans_lt (b.buy.whole_quantities ▸ fits.1)
  · apply Nat.mod_eq_of_lt
    exact (supply_le_whole _ price).trans_lt (b.sell.whole_quantities ▸ fits.2)

/-- **The scan computes what could trade.** -/
theorem executableVol_eq {b : AuctionBook} (h : b.Consistent) (fits : b.TotalsFit)
    (price : Int) : b.executableVol price = b.executableAt price := by
  obtain ⟨hbuy, hsell⟩ := totalVol_eq_of_consistent h fits price
  rw [executableVol, hbuy, hsell, executableAt_eq_crossed, crossed]

/-- **The scan misses no price**: no price has more than the best candidate. -/
theorem executableAt_le_best {b : AuctionBook} (h : b.Consistent) (fits : b.TotalsFit)
    (price : Int) : b.executableAt price ≤ b.best.volume := by
  by_cases hzero : b.executableAt price = 0
  · rw [hzero]
    exact Nat.zero_le _
  · rw [executableAt_eq_crossed] at hzero ⊢
    obtain ⟨q, hq, hle⟩ := exists_offered_crossed_le hzero
    rw [← b.sell.consistent_iff.mp (h .sell)] at hq
    have hmem : q ∈ b.prices := mem_prices.mpr (.inr (BookSide.mem_keys_of_mem_support hq))
    rw [← executableAt_eq_crossed, ← executableAt_eq_crossed] at hle
    rw [← executableAt_eq_crossed]
    exact hle.trans (executableVol_eq h fits q ▸ b.scanned_best.max q hmem)

/-! ## The price maximises the volume -/

/-- Without entries there is nothing to sum. -/
theorem sumWhere_of_keys_nil {volumes : AList fun _ : Int => Nat} (h : volumes.keys = [])
    (p : Int → Bool) : sumWhere p id volumes = 0 := by
  have hentries : volumes.entries = [] := List.map_eq_nil_iff.mp h
  rw [sumWhere, hentries]
  rfl

/-- Without an entry on one side no price has a volume. -/
theorem executableVol_of_empty {b : AuctionBook}
    (h : b.buy.volumeByPrice.keys = [] ∨ b.sell.volumeByPrice.keys = []) (price : Int) :
    b.executableVol price = 0 := by
  unfold executableVol totalBuyVol totalSellVol
  obtain h | h := h
  · rw [sumWhere_of_keys_nil h, Nat.zero_mod, Nat.zero_min]
  · rw [sumWhere_of_keys_nil h, Nat.zero_mod, Nat.min_zero]

/-- The early return of `calculate_indicative_price` decides nothing. -/
theorem calculateIndicativePrice_eq_none_iff (b : AuctionBook) :
    b.calculateIndicativePrice = none ↔ b.best.volume = 0 := by
  unfold calculateIndicativePrice
  split
  · rename_i hempty
    refine iff_of_true rfl ?_
    by_contra hne
    obtain ⟨-, heq⟩ := b.scanned_best.attained hne
    exact hne (heq ▸ executableVol_of_empty hempty _)
  · split
    · rename_i hzero
      exact iff_of_true rfl hzero
    · rename_i hzero
      exact iff_of_false nofun hzero

/-- What is returned is the best candidate. -/
theorem calculateIndicativePrice_eq_some {b : AuctionBook} {ip : IndicativePrice}
    (h : b.calculateIndicativePrice = some ip) :
    ip.priceTicks = b.best.price ∧ ip.executableVolume = b.best.volume ∧
      b.best.volume ≠ 0 ∧ b.executableVol ip.priceTicks = ip.executableVolume := by
  have hne : b.best.volume ≠ 0 := by
    intro hzero
    rw [b.calculateIndicativePrice_eq_none_iff.mpr hzero] at h
    cases h
  obtain ⟨-, hvolume⟩ := b.scanned_best.attained hne
  unfold calculateIndicativePrice at h
  split at h
  · cases h
  · obtain rfl := Option.some.inj h
    exact ⟨rfl, rfl, hne, hvolume⟩

/-- **The indicative price of a consistent book.** -/
theorem indicativePrice_of_consistent {b : AuctionBook} (h : b.Consistent) (fits : b.TotalsFit) :
    (∀ ip, b.calculateIndicativePrice = some ip →
        ip.executableVolume = b.executableAt ip.priceTicks ∧
          ∀ price, b.executableAt price ≤ ip.executableVolume) ∧
      (b.calculateIndicativePrice = none ↔ ∀ price, b.executableAt price = 0) := by
  refine ⟨fun ip hip => ?_, ?_⟩
  · obtain ⟨-, hbest, -, hvolume⟩ := calculateIndicativePrice_eq_some hip
    refine ⟨(executableVol_eq h fits _ ▸ hvolume).symm, fun price => ?_⟩
    rw [hbest]
    exact executableAt_le_best h fits price
  · rw [calculateIndicativePrice_eq_none_iff]
    constructor
    · intro hzero price
      exact Nat.le_zero.mp (hzero ▸ executableAt_le_best h fits price)
    · intro hall
      by_contra hne
      obtain ⟨-, hvolume⟩ := b.scanned_best.attained hne
      rw [executableVol_eq h fits, hall] at hvolume
      exact hne hvolume.symm

/-- **The clearing price maximises the volume.**  In a book reached by a run in which no
volume leaves `u64` the price returned trades what could trade at it, no price of any
kind could trade more, and none is returned just when nothing could trade anywhere. -/
theorem indicativePrice_maximises {symbol : Symbol} {ops : List Op} {b : AuctionBook}
    (fits : AllSteps step (fun _ _ b => b.LevelsFit) (new symbol) ops)
    (hrun : run step (new symbol) ops = some b) (totals : b.TotalsFit) :
    (∀ ip, b.calculateIndicativePrice = some ip →
        ip.executableVolume = b.executableAt ip.priceTicks ∧
          ∀ price, b.executableAt price ≤ ip.executableVolume) ∧
      (b.calculateIndicativePrice = none ↔ ∀ price, b.executableAt price = 0) := by
  apply indicativePrice_of_consistent _ totals
  apply run_of_invariant _ (consistent_new symbol) fits hrun
  exact fun _ _ _ h hstep hfits => h.step hstep hfits

/-- After a modification 25 can trade anywhere from 90 to 110; the scan settles on 110,
where the fewest buys are left over. -/
theorem indicativePrice_crossedBook :
    let order (id : Nat) (s : Side) (price : Int) (q : Nat) : AuctionOrder :=
      ⟨id, .replicate 12 32, s, price, q, q, 0, false, none⟩
    let ops : List Op := [.add (order 1 .buy 110 30), .add (order 2 .buy 100 20),
      .add (order 3 .sell 90 25), .add (order 4 .sell 105 10), .modify 4 15 (some 120)]
    let b := ops.foldl apply (new (.replicate 12 32))
    b.calculateIndicativePrice = some ⟨110, 25, 5, 0, 50, 40⟩ ∧
      ∀ price, b.executableAt price ≤ 25 := by
  intro order ops b
  have hfits : AllSteps step (fun _ _ b => b.LevelsFit) (new (.replicate 12 32)) ops := by
    decide +kernel
  have hip : b.calculateIndicativePrice = some ⟨110, 25, 5, 0, 50, 40⟩ := by decide +kernel
  exact ⟨hip, ((indicativePrice_maximises hfits rfl (by decide +kernel)).1 _ hip).2⟩

end AuctionBook

end StopTrading.Auction
