import StopTrading.Exchange.AuctionPrice

/-!
# Ties of the indicative price

Several prices may have the largest executable volume.  The scan compares them by half of
what is left over at each, in `i64`, and keeps the first of those with the least half
(`scannedTies_best`).

So the price it returns has the least imbalance exactly if halving keeps the order, or the
better price comes first (`leastImbalance_iff_halvingKeepsOrder`).  As long as no imbalance
reaches `2 ^ 63` this fails only where the least imbalance is even and a lower price has one
more (`halvingKeepsOrder_iff_of_lt`).

### What is load-bearing

The figure for ties is `(|buy| + |sell|) / 2`, of imbalances that are differences cast to `i64`.
At most one of the two is not zero, since the executable volume is the smaller of the totals; so
the figure is half of the residual, rounded down (`meanImbalance_candidate`).  Rounding is the
whole defect: two residuals that differ by one can have the same half, and then the lower price
wins.

`ScannedTies` adds to the invariant of the scan which candidate was seen first, and as prices are
scanned in ascending order, first is lowest.
-/

namespace StopTrading.Auction

open MachineInt

/-- What is left over at a price, halved as the scan does it. -/
def halved (residual : Nat) : Int := (i64 (i64 |i64 residual|)).tdiv 2

namespace AuctionBook

/-- **What is left over at a price**: the difference of the two totals. -/
def residual (b : AuctionBook) (price : Int) : Nat :=
  ((b.totalBuyVol price : Int) - b.totalSellVol price).natAbs

/-- **The price is one of those that attain the maximum.** -/
structure Tied (b : AuctionBook) (price : Int) : Prop where
  /-- it is scanned -/
  mem : price ∈ b.prices
  /-- something can trade at it -/
  pos : 0 < b.executableVol price
  /-- and nowhere more -/
  max : ∀ q ∈ b.prices, b.executableVol q ≤ b.executableVol price

/-- **The price returned has the least imbalance** of those that attain the maximum. -/
def LeastImbalance (b : AuctionBook) : Prop :=
  ∀ ip, b.calculateIndicativePrice = some ip → ∀ q, b.Tied q →
    b.residual ip.priceTicks ≤ b.residual q

/-- **Halving keeps the order** of the tied prices, as far as it matters: one with more than
the least imbalance has a larger half, or the same one behind a price with the least. -/
def HalvingKeepsOrder (b : AuctionBook) : Prop :=
  ∀ p q, b.Tied p → b.Tied q → (∀ r, b.Tied r → b.residual q ≤ b.residual r) →
    b.residual q < b.residual p →
      halved (b.residual q) < halved (b.residual p) ∨
        halved (b.residual q) = halved (b.residual p) ∧
          ∃ r, b.Tied r ∧ b.residual r = b.residual q ∧ r < p

/-! ## The figure by which ties are broken -/

/-- An imbalance is a difference, cut to `i64`. -/
theorem imbalance_eq (total executable : Nat) :
    imbalance total executable = i64 ((total : Int) - executable) := by
  unfold imbalance i64
  rw [Int.sub_bmod_bmod, Int.bmod_sub_bmod]

/-- Nothing is left over as nothing. -/
theorem i64_zero : i64 0 = 0 := i64_of_range (by norm_num) (by norm_num)

/-- **The figure of a price** is half of what is left over there: on one side nothing is. -/
theorem meanImbalance_candidate (b : AuctionBook) (price : Int) :
    (b.candidate price).meanImbalance = halved (b.residual price) := by
  rw [Candidate.meanImbalance, candidate]
  dsimp only
  rw [imbalance_eq, imbalance_eq, executableVol, residual, halved]
  rcases le_total (b.totalBuyVol price) (b.totalSellVol price) with hle | hle
  · have hdiff : ((b.totalSellVol price : Int) - b.totalBuyVol price) =
        ((b.totalBuyVol price : Int) - b.totalSellVol price).natAbs := by omega
    rw [min_eq_left hle, sub_self, i64_zero, abs_zero, i64_zero, zero_add, hdiff]
  · have hdiff : ((b.totalBuyVol price : Int) - b.totalSellVol price) =
        ((b.totalBuyVol price : Int) - b.totalSellVol price).natAbs := by omega
    rw [min_eq_right hle, sub_self, i64_zero, abs_zero, i64_zero, add_zero, ← hdiff]

/-- A half below `2 ^ 63` is a half. -/
theorem halved_of_lt {d : Nat} (h : d < 2 ^ 63) : halved d = (d / 2 : Nat) := by
  have hrange : i64 (d : Int) = d := i64_of_range (by omega) (by omega)
  rw [halved, hrange, Nat.abs_cast, hrange, hrange, Int.tdiv_eq_ediv_of_nonneg (by omega)]
  rfl

/-! ## The scan -/

/-- **The loop invariant for ties**: the best candidate is the first of those with its volume
and the least half. -/
structure ScannedTies (b : AuctionBook) (seen : List Int) (best : Candidate) : Prop
    extends b.Scanned seen best where
  first : best.volume ≠ 0 → best = b.candidate best.price ∧
    ∃ before after, seen = before ++ best.price :: after ∧
      (∀ q ∈ before, b.executableVol q = best.volume →
        halved (b.residual best.price) < halved (b.residual q)) ∧
      ∀ q ∈ after, b.executableVol q = best.volume →
        halved (b.residual best.price) ≤ halved (b.residual q)

/-- The half of the best candidate is the least of those seen. -/
theorem ScannedTies.least {b : AuctionBook} {seen : List Int} {best : Candidate}
    (h : b.ScannedTies seen best) (hne : best.volume ≠ 0) {q : Int} (hq : q ∈ seen)
    (hvolume : b.executableVol q = best.volume) :
    halved (b.residual best.price) ≤ halved (b.residual q) := by
  obtain ⟨-, before, after, rfl, hbefore, hafter⟩ := h.first hne
  rcases List.mem_append.mp hq with hmem | hmem
  · exact (hbefore q hmem hvolume).le
  · rcases List.mem_cons.mp hmem with rfl | hmem
    · exact le_rfl
    · exact hafter q hmem hvolume

/-- A candidate that wins is the first one: whatever was seen has less volume, or a larger
half. -/
theorem scannedTies_candidate {b : AuctionBook} {seen : List Int} {best : Candidate} {price : Int}
    (h : b.ScannedTies seen best) (hscanned : b.Scanned (seen ++ [price]) (b.candidate price))
    (hwin : best.volume < b.executableVol price ∨ best.volume = b.executableVol price ∧
      (b.candidate price).meanImbalance < best.meanImbalance) :
    b.ScannedTies (seen ++ [price]) (b.candidate price) := by
  refine ⟨hscanned, fun hne => ⟨rfl, seen, [], rfl, fun q hq hvolume => ?_, nofun⟩⟩
  change b.executableVol q = b.executableVol price at hvolume
  change halved (b.residual price) < halved (b.residual q)
  have hmax := h.max q hq
  obtain hmore | ⟨htie, hless⟩ := hwin
  · omega
  · have hbest : best.volume ≠ 0 := fun hzero => hne (htie.symm.trans hzero)
    have hcandidate := (h.first hbest).1
    rw [hcandidate, meanImbalance_candidate, meanImbalance_candidate] at hless
    exact hless.trans_le (h.least hbest hq (hvolume.trans htie.symm))

/-- One round of the scan. -/
theorem ScannedTies.scan {b : AuctionBook} {seen : List Int} {best : Candidate}
    (h : b.ScannedTies seen best) (price : Int) :
    b.ScannedTies (seen ++ [price]) (b.scan best price) := by
  have hscanned := h.toScanned.scan price
  obtain ⟨hscan, hwin⟩ | ⟨hscan, -, hkeep⟩ := b.scan_cases best price
  · rw [hscan] at hscanned ⊢
    exact scannedTies_candidate h hscanned hwin
  · rw [hscan] at hscanned ⊢
    refine ⟨hscanned, fun hne => ?_⟩
    obtain ⟨hcandidate, before, after, hsplit, hbefore, hafter⟩ := h.first hne
    refine ⟨hcandidate, before, after ++ [price], by rw [hsplit]; simp, hbefore, ?_⟩
    rw [List.forall_mem_append, List.forall_mem_singleton]
    refine ⟨hafter, fun hvolume => ?_⟩
    have hle := hkeep hvolume (Nat.pos_of_ne_zero hne)
    rwa [hcandidate, meanImbalance_candidate, meanImbalance_candidate] at hle

/-- **What the scan ends with**, of several prices. -/
theorem scannedTies_best (b : AuctionBook) : b.ScannedTies b.prices b.best := by
  have hnil : b.ScannedTies [] ⟨0, 0, 0, 0⟩ := ⟨b.scanned_nil, fun hne => absurd rfl hne⟩
  exact ListSplits.foldl_of_seen b.ScannedTies (fun _ _ price h => h.scan price) b.prices hnil

/-! ## The price that is returned -/

/-- The tied prices are those with the volume of the best candidate. -/
theorem tied_iff {b : AuctionBook} (hne : b.best.volume ≠ 0) {q : Int} :
    b.Tied q ↔ q ∈ b.prices ∧ b.executableVol q = b.best.volume := by
  obtain ⟨hmem, hvolume⟩ := b.scanned_best.attained hne
  constructor
  · intro h
    exact ⟨h.mem, le_antisymm (b.scanned_best.max q h.mem) (hvolume ▸ h.max _ hmem)⟩
  · rintro ⟨hq, heq⟩
    exact ⟨hq, by omega, fun r hr => (b.scanned_best.max r hr).trans_eq heq.symm⟩

/-- **The price returned** is the lowest of the tied prices with the least half. -/
theorem best_price_of_tied {b : AuctionBook} (hne : b.best.volume ≠ 0) :
    b.Tied b.best.price ∧ ∀ q, b.Tied q →
      halved (b.residual b.best.price) ≤ halved (b.residual q) ∧
        (q < b.best.price → halved (b.residual b.best.price) < halved (b.residual q)) := by
  obtain ⟨-, before, after, hsplit, hbefore, -⟩ := b.scannedTies_best.first hne
  refine ⟨(tied_iff hne).mpr (b.scanned_best.attained hne), fun q hq => ?_⟩
  obtain ⟨hmem, hvolume⟩ := (tied_iff hne).mp hq
  refine ⟨b.scannedTies_best.least hne hmem hvolume, fun hlt => ?_⟩
  have hsorted := b.pairwise_prices
  rw [hsplit, List.pairwise_append, List.pairwise_cons] at hsorted
  rw [hsplit, List.mem_append, List.mem_cons] at hmem
  -- the prices are scanned in ascending order
  obtain hmem | rfl | hmem := hmem
  · exact hbefore q hmem hvolume
  · exact absurd hlt (lt_irrefl _)
  · exact absurd (hsorted.2.1.1 q hmem) hlt.not_gt

/-- A tied price means that a price is returned, the best one. -/
theorem leastImbalance_iff {b : AuctionBook} :
    b.LeastImbalance ↔ ∀ q, b.Tied q → b.residual b.best.price ≤ b.residual q := by
  constructor
  · intro h q hq
    have hne : b.best.volume ≠ 0 := by
      have := b.scanned_best.max q hq.mem
      have := hq.pos
      omega
    obtain ⟨ip, hip⟩ := Option.ne_none_iff_exists'.mp
      fun hnone => hne (b.calculateIndicativePrice_eq_none_iff.mp hnone)
    rw [← (calculateIndicativePrice_eq_some hip).1]
    exact h ip hip q hq
  · intro h ip hip q hq
    rw [(calculateIndicativePrice_eq_some hip).1]
    exact h q hq

/-- **Breaking ties**: the price returned has the least imbalance of those that attain the
maximum if and only if halving keeps the order. -/
theorem leastImbalance_iff_halvingKeepsOrder (b : AuctionBook) :
    b.LeastImbalance ↔ b.HalvingKeepsOrder := by
  rw [leastImbalance_iff]
  constructor
  · intro hleast p q hp hq hmin hlt
    have hne : b.best.volume ≠ 0 := by
      have := b.scanned_best.max p hp.mem
      have := hp.pos
      omega
    obtain ⟨hbest, hfirst⟩ := best_price_of_tied hne
    have hsame : b.residual b.best.price = b.residual q :=
      le_antisymm (hleast q hq) (hmin _ hbest)
    have hhalf := (hfirst p hp).1
    rw [hsame] at hhalf
    obtain hless | heq := lt_or_eq_of_le hhalf
    · exact .inl hless
    · refine .inr ⟨heq, _, hbest, hsame, ?_⟩
      by_contra hnot
      rcases lt_or_eq_of_le (not_lt.mp hnot) with hbelow | rfl
      · have hlower := (hfirst p hp).2 hbelow
        rw [hsame, heq] at hlower
        exact lt_irrefl _ hlower
      · omega
  · intro hkeeps q hq
    have hne : b.best.volume ≠ 0 := by
      have := b.scanned_best.max q hq.mem
      have := hq.pos
      omega
    obtain ⟨hbest, hfirst⟩ := best_price_of_tied hne
    -- a tied price with the least imbalance
    obtain ⟨m, hm, hmin⟩ := WellFounded.has_min (measure b.residual).wf {r | b.Tied r} ⟨q, hq⟩
    have hleast : ∀ r, b.Tied r → b.residual m ≤ b.residual r := fun r hr =>
      not_lt.mp (hmin r hr)
    refine le_trans ?_ (hleast q hq)
    by_contra hmore
    obtain hless | ⟨heq, r, hr, hsame, hbelow⟩ :=
      hkeeps b.best.price m hbest hm hleast (not_le.mp hmore)
    · exact absurd (hfirst m hm).1 hless.not_ge
    · have hlower := (hfirst r hr).2 hbelow
      rw [hsame, heq] at hlower
      exact lt_irrefl _ hlower

/-- **Imbalances below `2 ^ 63`**: halving keeps the order but where the least imbalance is even
and a price with one more is below all those with the least. -/
theorem halvingKeepsOrder_iff_of_lt {b : AuctionBook}
    (h : ∀ p, b.Tied p → b.residual p < 2 ^ 63) :
    b.HalvingKeepsOrder ↔
      ∀ p q, b.Tied p → b.Tied q → (∀ r, b.Tied r → b.residual q ≤ b.residual r) →
        b.residual q % 2 = 0 → b.residual p = b.residual q + 1 →
          ∃ r, b.Tied r ∧ b.residual r = b.residual q ∧ r < p := by
  constructor
  · intro hkeeps p q hp hq hmin heven hmore
    have hlt : b.residual q < b.residual p := by omega
    obtain hless | ⟨-, hbelow⟩ := hkeeps p q hp hq hmin hlt
    · rw [halved_of_lt (h p hp), halved_of_lt (h q hq)] at hless
      omega
    · exact hbelow
  · intro hbelow p q hp hq hmin hlt
    rw [halved_of_lt (h p hp), halved_of_lt (h q hq)]
    by_cases hhalf : b.residual q / 2 = b.residual p / 2
    · exact .inr ⟨by omega, hbelow p q hp hq hmin (by omega) (by omega)⟩
    · exact .inl (by omega)

/-- **Three are left over at 100 and two at 101**, and as many trade: the price is 100. -/
theorem not_forall_leastImbalance : ¬ ∀ b : AuctionBook, b.LeastImbalance := by
  intro hall
  let order (id : Nat) (s : Side) (price : Int) (q : Nat) : AuctionOrder :=
    ⟨id, .replicate 12 32, s, price, q, q, 0, false, none⟩
  let ops : List Op := [.add (order 1 .buy 101 12), .add (order 2 .buy 100 1),
    .add (order 3 .sell 100 10)]
  let b := ops.foldl apply (new (.replicate 12 32))
  have hip : b.calculateIndicativePrice = some ⟨100, 10, 3, 0, 13, 10⟩ := by decide +kernel
  have htied : b.Tied 101 := ⟨by decide +kernel, by decide +kernel, by decide +kernel⟩
  exact absurd (hall b _ hip 101 htied) (by decide +kernel)

end AuctionBook

end StopTrading.Auction
