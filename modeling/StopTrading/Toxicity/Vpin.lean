import Mathlib
import StopTrading.Library.CentralMoments
import StopTrading.Library.GreedyCut
import StopTrading.Library.SlidingWindow

/-!
# Order flow toxicity

`VpinCalculator` puts trades into buckets of a given volume and keeps the sum of the imbalances
of the last buckets, to which it adds that of a bucket when it is full and from which it takes
that of the oldest one.  Arithmetic on imbalances is exact, volumes are machine words.

* `vpin_of_trades` — the trades are cut greedily at the volume, nothing is lost between two
  buckets, and the value is the mean imbalance of the last buckets, whatever came before.

### What is load-bearing

How trades are cut into buckets does not depend on their sides or on anything the calculator has
computed, only on their volumes.  `Library.GreedyCut` says what a greedy cut is, and `Follows`
relates the calculator to one: the current bucket tallies the rest, and the buckets that are kept
tally the last segments.  A trade either goes into the rest or completes a segment, and there is
one lemma for the two.

The kept sum is corrected by subtraction when a bucket goes.  In exact arithmetic it stays the
sum of the buckets, which is a field of the invariant and not of the result; the result speaks of
the mean.

### Design decisions

A bucket may take more than its volume, since a trade is not split.  The only assumption on
volumes is that a bucket and one more trade fit into a word.
-/

namespace StopTrading.Toxicity

open CentralMoments GreedyCut SlidingWindow

/-- `VpinConfig`. -/
structure VpinConfig where
  numBuckets : Nat
  bucketVolume : BitVec 64
  toxicityThreshold : Rat

/-- `VolumeBucket`. -/
structure VolumeBucket where
  buyVolume : BitVec 64
  sellVolume : BitVec 64
  totalVolume : BitVec 64
  deriving Repr, DecidableEq

/-- What `process_trade` reads of a trade. -/
structure Trade where
  volume : BitVec 64
  isBuyerMaker : Bool
  deriving Repr, DecidableEq

/-- The trade was a buy if the buyer was not the maker. -/
def Trade.isBuy (t : Trade) : Bool := !t.isBuyerMaker

namespace VolumeBucket

/-- `new`. -/
def new : VolumeBucket := ⟨0, 0, 0⟩

/-- `add_trade`. -/
def addTrade (b : VolumeBucket) (volume : BitVec 64) (isBuy : Bool) : VolumeBucket where
  buyVolume := if isBuy then b.buyVolume + volume else b.buyVolume
  sellVolume := if isBuy then b.sellVolume else b.sellVolume + volume
  totalVolume := b.totalVolume + volume

/-- `is_full`. -/
def isFull (b : VolumeBucket) (target : BitVec 64) : Bool := b.totalVolume ≥ target

/-- `imbalance`. -/
def imbalance (b : VolumeBucket) : Rat :=
  let total : Rat := b.buyVolume.toNat + b.sellVolume.toNat
  if total < 1 / 10 ^ 9 then 0
  else |(b.buyVolume.toNat : Rat) - b.sellVolume.toNat| / total

end VolumeBucket

/-- `VpinCalculator`. -/
structure VpinCalculator where
  config : VpinConfig
  buckets : List VolumeBucket
  currentBucket : VolumeBucket
  sumImbalances : Rat
  isToxic : Bool
  lastVpin : Rat

namespace VpinCalculator

/-- `new`. -/
def new (config : VpinConfig) : VpinCalculator := ⟨config, [], .new, 0, false, 0⟩

/-- `complete_bucket`. -/
def completeBucket (c : VpinCalculator) : VpinCalculator :=
  let bucketImbalance := c.currentBucket.imbalance
  -- The oldest bucket goes when there are as many as there should be.
  let (oldBucket, kept) :=
    if c.buckets.length ≥ c.config.numBuckets then
      (c.buckets.head?.map VolumeBucket.imbalance, c.buckets.tail)
    else (none, c.buckets)
  let sumImbalances :=
    match oldBucket with
    | some oldImb => c.sumImbalances - oldImb
    | none => c.sumImbalances
  let sumImbalances := sumImbalances + bucketImbalance
  let buckets := kept ++ [c.currentBucket]
  let lastVpin :=
    if (buckets.length : Rat) > 0 then sumImbalances / buckets.length else c.lastVpin
  { c with
    buckets := buckets
    currentBucket := .new
    sumImbalances := sumImbalances
    lastVpin := lastVpin
    isToxic := lastVpin ≥ c.config.toxicityThreshold }

/-- `process_trade`. -/
def processTrade (c : VpinCalculator) (t : Trade) : VpinCalculator × Option (Rat × Bool) :=
  let c := { c with currentBucket := c.currentBucket.addTrade t.volume t.isBuy }
  if c.currentBucket.isFull c.config.bucketVolume then
    let c := c.completeBucket
    (c, some (c.lastVpin, c.isToxic))
  else (c, none)

/-- Some trades. -/
def run (config : VpinConfig) (trades : List Trade) : VpinCalculator :=
  trades.foldl (fun c t => (c.processTrade t).1) (new config)

end VpinCalculator

/-! ## Buckets of trades -/

/-- The volume of the trades that one side began. -/
def volumeOf (isBuy : Bool) (trades : List Trade) : Nat :=
  (trades.map fun t => if t.isBuy = isBuy then t.volume.toNat else 0).sum

/-- The volume of some trades. -/
def totalOf (trades : List Trade) : Nat := (trades.map fun t => t.volume.toNat).sum

/-- **The imbalance of some trades**: the share of the volume by which one side is ahead. -/
def imbalanceOf (trades : List Trade) : Rat :=
  |(volumeOf true trades : Rat) - volumeOf false trades| / totalOf trades

/-- The trades reach the volume of a bucket. -/
def Reaches (target : BitVec 64) (trades : List Trade) : Prop := target.toNat ≤ totalOf trades

/-- One more trade adds its volume -/
theorem totalOf_concat (trades : List Trade) (t : Trade) :
    totalOf (trades ++ [t]) = totalOf trades + t.volume.toNat := by
  simp [totalOf]

/-- to its own side. -/
theorem volumeOf_concat (isBuy : Bool) (trades : List Trade) (t : Trade) :
    volumeOf isBuy (trades ++ [t]) =
      volumeOf isBuy trades + if t.isBuy = isBuy then t.volume.toNat else 0 := by
  simp [volumeOf]

/-- Every trade is on one side. -/
theorem totalOf_eq (trades : List Trade) :
    totalOf trades = volumeOf true trades + volumeOf false trades := by
  induction trades using List.reverseRecOn with
  | nil => rfl
  | append_singleton trades t ih =>
      rw [totalOf_concat, volumeOf_concat, volumeOf_concat, ih]
      cases t.isBuy <;> simp <;> omega

/-- An imbalance is not negative. -/
theorem imbalanceOf_nonneg (trades : List Trade) : 0 ≤ imbalanceOf trades :=
  div_nonneg (abs_nonneg _) (Nat.cast_nonneg _)

/-- No side is ahead by more than the volume. -/
theorem imbalanceOf_le_one (trades : List Trade) : imbalanceOf trades ≤ 1 := by
  have hbuy : (0 : Rat) ≤ volumeOf true trades := Nat.cast_nonneg _
  have hsell : (0 : Rat) ≤ volumeOf false trades := Nat.cast_nonneg _
  refine div_le_one_of_le₀ ?_ (Nat.cast_nonneg _)
  rw [totalOf_eq, Nat.cast_add, abs_le]
  constructor <;> linarith

/-- A bucket holds some trades. -/
structure VolumeBucket.Tallies (b : VolumeBucket) (trades : List Trade) : Prop where
  /-- Each side has the volume of its trades. -/
  buy : b.buyVolume.toNat = volumeOf true trades
  sell : b.sellVolume.toNat = volumeOf false trades
  total : b.totalVolume.toNat = totalOf trades

namespace VolumeBucket.Tallies

variable {b : VolumeBucket} {trades : List Trade}

/-- A new bucket holds no trades. -/
theorem new : VolumeBucket.new.Tallies [] := ⟨rfl, rfl, rfl⟩

/-- **One more trade**, if the volume stays a word. -/
theorem addTrade (h : b.Tallies trades) {t : Trade}
    (hfits : totalOf trades + t.volume.toNat < 2 ^ 64) :
    (b.addTrade t.volume t.isBuy).Tallies (trades ++ [t]) := by
  have htotal := totalOf_eq trades
  refine ⟨?_, ?_, ?_⟩
  · rw [volumeOf_concat, VolumeBucket.addTrade]
    cases hbuy : t.isBuy
    · simpa using h.buy
    · simp only [if_true, BitVec.toNat_add, h.buy]
      exact Nat.mod_eq_of_lt (by omega)
  · rw [volumeOf_concat, VolumeBucket.addTrade]
    cases hbuy : t.isBuy
    · simp only [Bool.false_eq_true, if_false, if_true, BitVec.toNat_add, h.sell]
      exact Nat.mod_eq_of_lt (by omega)
    · simpa using h.sell
  · rw [totalOf_concat, VolumeBucket.addTrade, BitVec.toNat_add, h.total]
    exact Nat.mod_eq_of_lt hfits

/-- A bucket is full when its trades reach the volume. -/
theorem isFull_iff (h : b.Tallies trades) (target : BitVec 64) :
    b.isFull target = true ↔ Reaches target trades := by
  rw [VolumeBucket.isFull, decide_eq_true_iff, ge_iff_le, BitVec.le_def, h.total]
  rfl

/-- **The imbalance of a bucket** is that of its trades. -/
theorem imbalance_eq (h : b.Tallies trades) : b.imbalance = imbalanceOf trades := by
  have htotal : ((volumeOf true trades : Nat) : Rat) + (volumeOf false trades : Nat) =
      (totalOf trades : Nat) := by
    rw [totalOf_eq, Nat.cast_add]
  rw [VolumeBucket.imbalance, h.buy, h.sell, htotal, imbalanceOf]
  show (if (totalOf trades : Rat) < 1 / 10 ^ 9 then 0 else _) = _
  split_ifs with hsmall
  · have hzero : totalOf trades = 0 := by
      by_contra hne
      have hone : (1 : Rat) ≤ (totalOf trades : Nat) :=
        Nat.one_le_cast.mpr (Nat.one_le_iff_ne_zero.mpr hne)
      norm_num at hsmall
      linarith
    rw [hzero, Nat.cast_zero, div_zero]
  · rfl

end VolumeBucket.Tallies

/-! ## The last buckets -/

namespace VpinCalculator

/-- **A bucket is completed**, and the sum stays that of the buckets. -/
structure Completed (c c' : VpinCalculator) : Prop where
  config : c'.config = c.config
  /-- The new bucket is the last, and the oldest goes if there are too many. -/
  buckets : c'.buckets = slide c.config.numBuckets c.buckets c.currentBucket
  currentBucket : c'.currentBucket = .new
  /-- The sum was corrected by what came and what went, -/
  sum : c'.sumImbalances = (c'.buckets.map VolumeBucket.imbalance).sum
  /-- and the value is the mean. -/
  lastVpin : c'.lastVpin = mean (c'.buckets.map VolumeBucket.imbalance)
  isToxic : c'.isToxic = decide (c.config.toxicityThreshold ≤ c'.lastVpin)

/-- **Completing a bucket** keeps the sum that of the buckets. -/
theorem completed_completeBucket {c : VpinCalculator}
    (h : c.sumImbalances = (c.buckets.map VolumeBucket.imbalance).sum) :
    Completed c c.completeBucket := by
  have hbuckets : c.completeBucket.buckets =
      slide c.config.numBuckets c.buckets c.currentBucket := by
    unfold completeBucket slide
    split_ifs <;> rfl
  have hsum : c.completeBucket.sumImbalances =
      (c.completeBucket.buckets.map VolumeBucket.imbalance).sum := by
    rw [hbuckets]
    unfold completeBucket slide
    cases hold : c.buckets with
    | nil => split_ifs <;> simp [h, hold]
    | cons b bs =>
        rw [hold] at h
        split_ifs
        · simp [h]
        · simp [h, add_assoc]
  refine ⟨rfl, hbuckets, rfl, hsum, ?_, rfl⟩
  have hpos : (c.completeBucket.buckets.length : Rat) > 0 := by
    rw [hbuckets, slide, gt_iff_lt, Nat.cast_pos]
    simp
  rw [mean, ← hsum, List.length_map]
  exact if_pos hpos

end VpinCalculator

/-- What the calculator holds when the trades were cut into segments and a rest. -/
structure VpinOf (config : VpinConfig) (segments : List (List Trade)) (rest : List Trade)
    (c : VpinCalculator) : Prop where
  /-- The rest is in the current bucket. -/
  current : c.currentBucket.Tallies rest
  /-- The last segments are in the buckets that are kept. -/
  buckets : List.Forall₂ VolumeBucket.Tallies c.buckets (segments.rtake (max 1 config.numBuckets))
  /-- The value is the mean imbalance of these, -/
  vpin : c.lastVpin = mean ((segments.rtake (max 1 config.numBuckets)).map imbalanceOf)
  /-- so it is a share. -/
  range : 0 ≤ c.lastVpin ∧ c.lastVpin ≤ 1
  toxic : c.isToxic = true ↔ segments ≠ [] ∧ config.toxicityThreshold ≤ c.lastVpin

/-- The same, and the sum that is kept. -/
structure VpinCalculator.Follows (config : VpinConfig) (trades : List Trade)
    (segments : List (List Trade)) (rest : List Trade) (c : VpinCalculator) : Prop where
  configured : c.config = config
  /-- The trades are cut at the volume of a bucket. -/
  cut : IsCut (Reaches config.bucketVolume) trades segments rest
  holds : VpinOf config segments rest c
  /-- The sum is that of the buckets. -/
  sum : c.sumImbalances = (c.buckets.map VolumeBucket.imbalance).sum

/-- Buckets are as imbalanced as their trades. -/
theorem map_imbalance {bs : List VolumeBucket} {segments : List (List Trade)}
    (h : List.Forall₂ VolumeBucket.Tallies bs segments) :
    bs.map VolumeBucket.imbalance = segments.map imbalanceOf := by
  induction h with
  | nil => rfl
  | cons hb _ ih => rw [List.map_cons, List.map_cons, hb.imbalance_eq, ih]

/-- Buckets that slide hold segments that slide. -/
theorem forall₂_slide {bs : List VolumeBucket} {segments : List (List Trade)}
    (h : List.Forall₂ VolumeBucket.Tallies bs segments) (n : Nat) {b : VolumeBucket}
    {s : List Trade} (hb : b.Tallies s) :
    List.Forall₂ VolumeBucket.Tallies (slide n bs b) (slide n segments s) := by
  unfold slide
  rw [h.length_eq]
  refine List.rel_append ?_ (.cons hb .nil)
  split_ifs
  · cases h with
    | nil => exact .nil
    | cons _ h => exact h
  · exact h

/-- A mean of shares is a share. -/
theorem mean_imbalance_range (segments : List (List Trade)) :
    0 ≤ mean (segments.map imbalanceOf) ∧ mean (segments.map imbalanceOf) ≤ 1 := by
  have hnonneg : 0 ≤ (segments.map imbalanceOf).sum :=
    List.sum_nonneg (by simpa using fun s _ => imbalanceOf_nonneg s)
  have hle : (segments.map imbalanceOf).sum ≤ ((segments.map imbalanceOf).length : Rat) := by
    have hcard := List.sum_le_card_nsmul (segments.map imbalanceOf) 1
      (by simpa using fun s _ => imbalanceOf_le_one s)
    rwa [nsmul_one] at hcard
  exact ⟨div_nonneg hnonneg (Nat.cast_nonneg _), div_le_one_of_le₀ hle (Nat.cast_nonneg _)⟩

namespace VpinCalculator

/-- A new calculator has seen no trades. -/
theorem follows_new (config : VpinConfig) : Follows config [] [] [] (new config) where
  configured := rfl
  cut := .nil
  holds := ⟨.new, by simp [new], by simp [new], by simp [new], by simp [new]⟩
  sum := rfl

/-- The rest and one more trade have a volume that is a word. -/
theorem Follows.totalOf_lt {config : VpinConfig} {trades rest : List Trade}
    {segments : List (List Trade)} {c : VpinCalculator} (h : Follows config trades segments rest c)
    {t : Trade} (hfits : config.bucketVolume.toNat + t.volume.toNat ≤ 2 ^ 64) :
    totalOf rest + t.volume.toNat < 2 ^ 64 := by
  by_cases hrest : rest = []
  · rw [hrest]
    simpa [totalOf] using t.volume.isLt
  · have hless : ¬ Reaches config.bucketVolume rest := h.cut.unfilled rest List.prefix_rfl hrest
    unfold Reaches at hless
    omega

/-- **A trade** goes into the rest, which it may complete. -/
theorem Follows.processTrade {config : VpinConfig} {trades rest : List Trade}
    {segments : List (List Trade)} {c : VpinCalculator} (h : Follows config trades segments rest c)
    {t : Trade} (hfits : config.bucketVolume.toNat + t.volume.toNat ≤ 2 ^ 64) :
    ∃ segments' rest', Follows config (trades ++ [t]) segments' rest' (c.processTrade t).1 := by
  have htallies := h.holds.current.addTrade (h.totalOf_lt hfits)
  obtain ⟨rfl, hcut, hholds, hsum⟩ := h
  rw [VpinCalculator.processTrade]
  by_cases hfull : (c.currentBucket.addTrade t.volume t.isBuy).isFull c.config.bucketVolume = true
  · -- the bucket is completed with the rest and the trade
    refine ⟨segments ++ [rest ++ [t]], [], ?_⟩
    simp only [hfull, if_true]
    have hdone := completed_completeBucket
      (c := { c with currentBucket := c.currentBucket.addTrade t.volume t.isBuy }) hsum
    have hbuckets := forall₂_slide hholds.buckets c.config.numBuckets htallies
    rw [slide_rtake] at hbuckets
    have hvpin := hdone.lastVpin
    rw [hdone.buckets, map_imbalance hbuckets] at hvpin
    refine ⟨hdone.config, hcut.close ((htallies.isFull_iff _).mp hfull), ⟨?_, ?_, hvpin, ?_, ?_⟩,
      hdone.sum⟩
    · rw [hdone.currentBucket]
      exact .new
    · rw [hdone.buckets]
      exact hbuckets
    · rw [hvpin]
      exact mean_imbalance_range _
    · rw [hdone.isToxic, decide_eq_true_iff]
      simp
  · -- the trade joins the rest
    refine ⟨segments, rest ++ [t], ?_⟩
    simp only [hfull]
    exact ⟨rfl, hcut.grow fun hreach => hfull ((htallies.isFull_iff _).mpr hreach),
      ⟨htallies, hholds.buckets, hholds.vpin, hholds.range, hholds.toxic⟩, hsum⟩

end VpinCalculator

/-- **The value is the mean imbalance of the last buckets**, of trades that are cut at the volume
of a bucket. -/
theorem vpin_of_trades (config : VpinConfig) {trades : List Trade}
    (hfits : ∀ t ∈ trades, config.bucketVolume.toNat + t.volume.toNat ≤ 2 ^ 64) :
    ∃ segments rest, IsCut (Reaches config.bucketVolume) trades segments rest ∧
      VpinOf config segments rest (VpinCalculator.run config trades) := by
  suffices hrun : ∃ segments rest, VpinCalculator.Follows config trades segments rest
      (VpinCalculator.run config trades) by
    obtain ⟨segments, rest, h⟩ := hrun
    exact ⟨segments, rest, h.cut, h.holds⟩
  induction trades using List.reverseRecOn with
  | nil => exact ⟨[], [], VpinCalculator.follows_new config⟩
  | append_singleton trades t ih =>
      obtain ⟨segments, rest, h⟩ := ih fun u hu => hfits u (List.mem_append_left [t] hu)
      rw [VpinCalculator.run, List.foldl_concat]
      exact h.processTrade (hfits t (by simp))

/-- Two buckets of ten, and a rest. -/
theorem vpin_of_trades_two :
    let config : VpinConfig := ⟨2, 10, 1 / 2⟩
    let trades : List Trade := [⟨6, false⟩, ⟨7, true⟩, ⟨12, false⟩, ⟨3, true⟩]
    ∃ segments rest, IsCut (Reaches config.bucketVolume) trades segments rest ∧
      VpinOf config segments rest (VpinCalculator.run config trades) :=
  vpin_of_trades ⟨2, 10, 1 / 2⟩ (by decide)

end StopTrading.Toxicity
