import StopTrading.Library.KeyedProfile

/-!
# Supply and demand at a price

Two profiles over a linear order of prices: what is offered at each price and what is
bid.  At a price `p` the demand is what is bid at `p` or above, the supply what is
offered at `p` or below, and the smaller of the two can trade (`crossed`).

* `demand_antitone` — the demand falls with the price.
* `exists_offered_crossed_le` — nothing is lost by looking at the offered prices only:
  below a price the supply is that of the highest offer, and the demand there is no
  less.
* `Clears` — the lowest price at which all that is bid and offered trades
  (`Clears.supply_lt`); there is one when some price separates the offers from the bids
  (`Clears.exists_of_separated`).

### What is load-bearing

`exists_offered_crossed_le` is why an auction may look at the offered prices only.  Between two
offered prices the supply does not change, and going down to the lower one can only raise the
demand; below the lowest offer nothing trades.  This uses that the amounts are canonically
ordered (no negative quantities) and nothing about prices but their order.

`Clears` describes the one situation in which the clearing price can be named in advance: all
bids are at or above all offers and the totals agree.  Its price is the highest offer, and not
the lowest bid, because the supply reaches the whole only there.
-/

namespace StopTrading.Crossing

open KeyedProfile

universe u w

variable {P : Type u} {M : Type w} [LinearOrder P] [AddCommMonoid M]

/-- What is bid at `p` or above. -/
def demand (bids : P →₀ M) (p : P) : M := mass bids fun k => p ≤ k

/-- What is offered at `p` or below. -/
def supply (offers : P →₀ M) (p : P) : M := mass offers fun k => k ≤ p

/-- The highest price at or below `p` at which something is offered has the supply of
`p`. -/
theorem exists_offered_supply_eq {offers : P →₀ M} {p : P} (h : supply offers p ≠ 0) :
    ∃ q ∈ offers.support, q ≤ p ∧ supply offers q = supply offers p := by
  obtain ⟨k, hk, hkp⟩ := exists_of_mass_ne_zero h
  have hne : (offers.support.filter fun k => k ≤ p).Nonempty :=
    ⟨k, Finset.mem_filter.mpr ⟨hk, hkp⟩⟩
  obtain ⟨hq, hqp⟩ := Finset.mem_filter.mp (Finset.max'_mem _ hne)
  refine ⟨_, hq, hqp, mass_congr fun k hk => ?_⟩
  exact ⟨fun h => h.trans hqp, fun h => Finset.le_max' _ k (Finset.mem_filter.mpr ⟨hk, h⟩)⟩

section Canonical

variable [PartialOrder M] [CanonicallyOrderedAdd M]

/-- The demand falls with the price. -/
theorem demand_antitone (bids : P →₀ M) : Antitone (demand bids) :=
  fun _ _ h => mass_le_of_imp fun _ _ hk => h.trans hk

/-- No more is demanded than was bid, -/
theorem demand_le_whole (bids : P →₀ M) (p : P) : demand bids p ≤ whole bids :=
  mass_le_whole bids _

/-- and no more supplied than was offered. -/
theorem supply_le_whole (offers : P →₀ M) (p : P) : supply offers p ≤ whole offers :=
  mass_le_whole offers _

end Canonical

section Volume

variable [LinearOrder M] [CanonicallyOrderedAdd M]

/-- What can trade at `p`. -/
def crossed (bids offers : P →₀ M) (p : P) : M := min (demand bids p) (supply offers p)

/-- **Some offered price does as well as any price.** -/
theorem exists_offered_crossed_le {bids offers : P →₀ M} {p : P}
    (h : crossed bids offers p ≠ 0) :
    ∃ q ∈ offers.support, crossed bids offers p ≤ crossed bids offers q := by
  have hsupply : supply offers p ≠ 0 := by
    intro hzero
    apply h
    rw [crossed, hzero]
    exact min_eq_right zero_le
  obtain ⟨q, hq, hqp, heq⟩ := exists_offered_supply_eq hsupply
  refine ⟨q, hq, ?_⟩
  unfold crossed
  rw [heq]
  exact min_le_min_right _ (demand_antitone bids hqp)

end Volume

/-! ## Prices at which everything trades -/

/-- At the offered price `q` no bid is lower, no offer is higher, and as much is bid as
is offered. -/
structure Clears (bids offers : P →₀ M) (q : P) : Prop where
  /-- something is offered at `q` -/
  offered : q ∈ offers.support
  /-- and nothing above it -/
  offers_le : ∀ k ∈ offers.support, k ≤ q
  /-- nothing is bid below it -/
  le_bids : ∀ k ∈ bids.support, q ≤ k
  /-- as much is bid as is offered -/
  balanced : whole bids = whole offers

namespace Clears

variable {bids offers : P →₀ M} {q : P}

/-- At the price everything that was bid is demanded, -/
theorem demand_eq (h : Clears bids offers q) : demand bids q = whole offers :=
  (mass_eq_whole h.le_bids).trans h.balanced

/-- and everything that was offered is supplied. -/
theorem supply_eq (h : Clears bids offers q) : supply offers q = whole offers :=
  mass_eq_whole h.offers_le

variable [PartialOrder M] [IsOrderedCancelAddMonoid M] [CanonicallyOrderedAdd M]

/-- Below `q` not everything is offered. -/
theorem supply_lt (h : Clears bids offers q) {r : P} (hr : r < q) :
    supply offers r < whole offers :=
  mass_lt_whole h.offered hr.not_ge

/-- **Bids at or above some price and offers at or below it**, as many as there are of each
and some: the highest offer clears them. -/
theorem exists_of_separated {p : P} (offers_le : ∀ k ∈ offers.support, k ≤ p)
    (le_bids : ∀ k ∈ bids.support, p ≤ k) (balanced : whole bids = whole offers)
    (hne : whole offers ≠ 0) : ∃ q, Clears bids offers q := by
  have hsupply : supply offers p = whole offers := mass_eq_whole offers_le
  obtain ⟨q, hq, hqp, heq⟩ := exists_offered_supply_eq (hsupply ▸ hne)
  refine ⟨q, hq, fun k hk => ?_, fun k hk => hqp.trans (le_bids k hk), balanced⟩
  -- an offer above `q` would be missing from the supply there
  by_contra hlt
  exact absurd (heq.trans hsupply) (mass_lt_whole hk hlt).ne

/-- And that is something. -/
theorem whole_pos (h : Clears bids offers q) : 0 < whole offers :=
  zero_le.trans_lt (mass_lt_whole (p := fun _ => False) h.offered not_false)

end Clears

end StopTrading.Crossing
