import StopTrading.Library.CountedLoop
import StopTrading.Ml.OnlineStats

/-!
# The online covariance matrix

`OnlineCovarianceMatrix` keeps one tracker for each ordered pair of features and feeds each of
them once per vector of features.

* `portfolioVariance_eq` — whatever was fed, the quadratic form of the matrix at some weights is
  the variance that a single tracker reports of the weighted sums.  So the matrix is symmetric
  and positive semidefinite, and a portfolio variance computed from it is never negative.
* `correlation_range` — a correlation is between minus one and one.

### What is load-bearing

A matrix of co-moments is positive semidefinite because it is a sum of squares, but a matrix of
running trackers is so only if all of them have seen the same vectors.  That is what has to be
proved of the update: two nested loops over pairs, of which each feeds two trackers, in both
orders (`PairsDone`, `update_covariances`).  Where the pair is one feature with itself, the two
are one tracker, and feeding it twice would be a mistake; the source tests for it.

With that, `portfolioVariance_eq` compares the matrix with a *single* tracker that is fed the
weighted sums.  Both are batch moments of lists of numbers, and one list is the weighted sum of
the others.
-/

namespace StopTrading.Ml

open CentralMoments CountedLoop Finset

/-- `OnlineCovarianceMatrix`. -/
structure OnlineCovarianceMatrix where
  covariances : Nat → Nat → OnlineCovariance
  nFeatures : Nat
  isActive : Bool

namespace OnlineCovarianceMatrix

/-- `OnlineCovarianceMatrix::new`. -/
def new (nFeatures : Nat) : OnlineCovarianceMatrix := ⟨fun _ _ => .new, nFeatures, true⟩

/-- The trackers of one pair of features, in both orders. -/
def updatePair (features : Nat → Rat) (i j : Nat) (c : Nat → Nat → OnlineCovariance) :
    Nat → Nat → OnlineCovariance :=
  let c := setAt c i j ((c i j).update (features i) (features j))
  if i ≠ j then setAt c j i ((c j i).update (features j) (features i)) else c

/-- `update`; `none` where the number of features is asserted and wrong. -/
def update (s : OnlineCovarianceMatrix) (features : List Rat) : Option OnlineCovarianceMatrix :=
  if s.isActive = false then some s
  else if features.length ≠ s.nFeatures then none
  else
    let row := fun i c =>
      forEach (updatePair (fun k => features.getD k 0) i) i (s.nFeatures - i) c
    some { s with covariances := forEach row 0 s.nFeatures s.covariances }

/-- `covariance_matrix`, one entry of it. -/
def covarianceMatrix (s : OnlineCovarianceMatrix) (i j : Nat) : Rat :=
  if i < s.nFeatures ∧ j < s.nFeatures then (s.covariances i j).covariance else 0

/-- `reset`. -/
def reset (s : OnlineCovarianceMatrix) : OnlineCovarianceMatrix :=
  { s with covariances := fun i j =>
      if i < s.nFeatures ∧ j < s.nFeatures then (s.covariances i j).reset
      else s.covariances i j }

/-- One call. -/
def feed (s : OnlineCovarianceMatrix) : Feed (List Rat) → Option OnlineCovarianceMatrix
  | .update features => s.update features
  | .reset => some s.reset

/-- Many calls, as long as none panics. -/
def feedAll (nFeatures : Nat) (feeds : List (Feed (List Rat))) : Option OnlineCovarianceMatrix :=
  feeds.foldl (fun s f => s.bind fun s => s.feed f) (some (new nFeatures))

/-! ## Every pair is fed once -/

/-- The trackers of pairs that come before column `j` of row `i` are updated, in both orders. -/
def PairsDone (n : Nat) (x : Nat → Rat) (old : Nat → Nat → OnlineCovariance) (i j : Nat)
    (c : Nat → Nat → OnlineCovariance) : Prop :=
  ∀ a < n, ∀ b < n, c a b =
    if a < i ∨ b < i ∨ (a = i ∧ b < j) ∨ (b = i ∧ a < j) then (old a b).update (x a) (x b)
    else old a b

/-- One pair more. -/
theorem PairsDone.updatePair {n : Nat} {x : Nat → Rat} {old c : Nat → Nat → OnlineCovariance}
    {i j : Nat} (hij : i ≤ j) (hj : j < n) (h : PairsDone n x old i j c) :
    PairsDone n x old i (j + 1) (updatePair x i j c) := by
  have here : c i j = old i j := (h i (by omega) j hj).trans (if_neg (by omega))
  have there : c j i = old j i := (h j hj i (by omega)).trans (if_neg (by omega))
  have first : ∀ a b, ¬ (a = i ∧ b = j) → ∀ v, setAt c i j v a b = c a b := by
    intro a b hab v
    by_cases hai : a = i
    · exact setAt_col_ne c i a v fun hbj => hab ⟨hai, hbj⟩
    · rw [setAt_row_ne c j v hai]
  intro a ha b hb
  unfold OnlineCovarianceMatrix.updatePair
  split
  · rename_i hne
    by_cases hji : a = j ∧ b = i
    · obtain ⟨rfl, rfl⟩ := hji
      rw [setAt_self, if_pos (by omega), first a b (by omega), there]
    · have second : ∀ (f : Nat → Nat → OnlineCovariance) v, setAt f j i v a b = f a b := by
        intro f v
        by_cases haj : a = j
        · exact setAt_col_ne f j a v fun hbi => hji ⟨haj, hbi⟩
        · rw [setAt_row_ne f i v haj]
      rw [second]
      by_cases hij' : a = i ∧ b = j
      · obtain ⟨rfl, rfl⟩ := hij'
        rw [setAt_self, if_pos (by omega), here]
      · rw [first a b hij', h a ha b hb]
        exact if_congr (by omega) rfl rfl
  · rename_i heq
    rw [not_not] at heq
    subst heq
    by_cases hij' : a = i ∧ b = i
    · obtain ⟨rfl, rfl⟩ := hij'
      rw [setAt_self, if_pos (by omega), here]
    · rw [first a b hij', h a ha b hb]
      exact if_congr (by omega) rfl rfl

/-- **One vector of features** updates every pair once. -/
theorem update_covariances {n : Nat} (x : Nat → Rat) (old : Nat → Nat → OnlineCovariance) :
    ∀ a < n, ∀ b < n,
      forEach (fun i c => forEach (updatePair x i) i (n - i) c) 0 n old a b =
        (old a b).update (x a) (x b) := by
  have done : PairsDone n x old (0 + n) (0 + n)
      (forEach (fun i c => forEach (updatePair x i) i (n - i) c) 0 n old) := by
    refine forEach_invariant (fun i c => PairsDone n x old i i c) ?_ ?_
    · intro i c _ hi hc
      have column : PairsDone n x old i (i + (n - i)) (forEach (updatePair x i) i (n - i) c) :=
        forEach_invariant _ (fun j t hij hj ht => ht.updatePair hij (by omega)) hc
      intro a ha b hb
      rw [column a ha b hb]
      exact if_congr (by omega) rfl rfl
    · intro a _ b _
      rw [if_neg (by omega)]
  intro a ha b hb
  rw [done a ha b hb, if_pos (by omega)]

/-! ## The trackers and the vectors since the last reset -/

/-- The values of two features in some vectors. -/
def pairs (a b : Nat) (vectors : List (List Rat)) : List (Rat × Rat) :=
  vectors.map fun v => (v.getD a 0, v.getD b 0)

/-- Every tracker holds what a batch computation gives. -/
structure Batch (n : Nat) (s : OnlineCovarianceMatrix) (vectors : List (List Rat)) : Prop where
  /-- no tracker is switched off -/
  active : s.isActive = true
  /-- there are so many features -/
  size : s.nFeatures = n
  /-- and each pair is that of the batch -/
  trackers : ∀ a < n, ∀ b < n, (s.covariances a b).Batch (pairs a b vectors)

/-- **One call** keeps every tracker at the batch computation. -/
theorem Batch.feed {n : Nat} {s s' : OnlineCovarianceMatrix} {vectors : List (List Rat)}
    (h : s.Batch n vectors) (f : Feed (List Rat)) (hfeed : s.feed f = some s') :
    s'.Batch n (f.push vectors) := by
  obtain ⟨active, size, trackers⟩ := h
  cases f with
  | update features =>
      simp only [OnlineCovarianceMatrix.feed, OnlineCovarianceMatrix.update, active,
        Bool.true_eq_false, if_false] at hfeed
      split at hfeed
      · cases hfeed
      · cases hfeed
        refine ⟨rfl, size, fun a ha b hb => ?_⟩
        simp only [size]
        rw [update_covariances _ _ a ha b hb]
        have grown : pairs a b (vectors ++ [features]) =
            pairs a b vectors ++ [(features.getD a 0, features.getD b 0)] := by
          simp [pairs]
        show OnlineCovariance.Batch _ (pairs a b (vectors ++ [features]))
        rw [grown]
        exact (trackers a ha b hb).update _ _
  | reset =>
      cases hfeed
      refine ⟨active, size, fun a ha b hb => ?_⟩
      simp only [OnlineCovarianceMatrix.reset, size, ha, hb, and_self, if_true]
      exact (trackers a ha b hb).feed .reset

/-- Many calls. -/
theorem batch_feedAll {n : Nat} {feeds : List (Feed (List Rat))} {s : OnlineCovarianceMatrix}
    (h : feedAll n feeds = some s) : s.Batch n (sinceReset feeds) := by
  have run : ∀ s, feedAll n feeds = some s → s.Batch n (sinceReset feeds) := by
    refine @foldl_feed _ _ _ (fun (o : Option OnlineCovarianceMatrix) vectors =>
      ∀ s, o = some s → s.Batch n vectors) _ ?_ ?_ feeds
    · rintro s ⟨⟩
      exact ⟨rfl, rfl, fun a _ b _ => OnlineCovariance.batch_new⟩
    · intro o vectors f ho s hs
      obtain ⟨m, hm, hfeed⟩ := Option.bind_eq_some_iff.mp hs
      exact (ho m hm).feed f hfeed
  exact run s h

/-! ## The quadratic form -/

/-- The weighted sum of the features. -/
def weighted (n : Nat) (w : Nat → Rat) (v : List Rat) : Rat := ∑ a ∈ range n, w a * v.getD a 0

/-- A quadratic form in products of distances is a sum of squares of weighted distances. -/
theorem form_of_distances (n : Nat) (w c : Nat → Rat) (vectors : List (List Rat)) :
    ∑ a ∈ range n, ∑ b ∈ range n, w a * coMomentAbout (c a) (c b) (pairs a b vectors) * w b =
      (vectors.map fun v => (weighted n w v - ∑ a ∈ range n, w a * c a) ^ 2).sum := by
  induction vectors with
  | nil => simp [pairs, coMomentAbout]
  | cons v vectors ih =>
      have square : ∑ a ∈ range n, ∑ b ∈ range n,
          w a * ((v.getD a 0 - c a) * (v.getD b 0 - c b)) * w b =
            (weighted n w v - ∑ a ∈ range n, w a * c a) ^ 2 := by
        rw [weighted, ← sum_sub_distrib, pow_two, sum_mul_sum]
        refine sum_congr rfl fun a _ => sum_congr rfl fun b _ => ?_
        ring
      rw [List.map_cons, List.sum_cons, ← ih, ← square, ← sum_add_distrib]
      refine sum_congr rfl fun a _ => ?_
      rw [← sum_add_distrib]
      refine sum_congr rfl fun b _ => ?_
      simp only [pairs, List.map_cons, coMomentAbout_cons]
      ring

/-- The mean of the weighted sums. -/
theorem mean_weighted (n : Nat) (w : Nat → Rat) (vectors : List (List Rat)) :
    mean (vectors.map (weighted n w)) =
      ∑ a ∈ range n, w a * mean (vectors.map fun v => v.getD a 0) := by
  have total : (vectors.map (weighted n w)).sum =
      ∑ a ∈ range n, w a * (vectors.map fun v => v.getD a 0).sum := by
    induction vectors with
    | nil => simp
    | cons v vectors ih =>
        simp only [List.map_cons, List.sum_cons, ih, weighted, mul_add, sum_add_distrib]
  simp only [mean, total, List.length_map, sum_div, mul_div_assoc]

/-- The form of the co-moments is the second moment of the weighted sums. -/
theorem form_eq_central (n : Nat) (w : Nat → Rat) (vectors : List (List Rat)) :
    ∑ a ∈ range n, ∑ b ∈ range n, w a * coMoment (pairs a b vectors) * w b =
      central 2 (vectors.map (weighted n w)) := by
  have points : ∀ a b, coMoment (pairs a b vectors) =
      coMomentAbout (mean (vectors.map fun v => v.getD a 0))
        (mean (vectors.map fun v => v.getD b 0)) (pairs a b vectors) := by
    intro a b
    simp only [coMoment, pairs, List.map_map, Function.comp_def]
  simp only [points]
  rw [form_of_distances n w fun a => mean (vectors.map fun v => v.getD a 0), central, momentAbout,
    mean_weighted, List.map_map]
  rfl

/-- A tracker of the weighted sums, fed along with the matrix. -/
def weightedFeed (n : Nat) (w : Nat → Rat) : Feed (List Rat) → Feed Rat
  | .update features => .update (weighted n w features)
  | .reset => .reset

/-- One call more. -/
theorem sinceReset_concat {V : Type} (feeds : List (Feed V)) (f : Feed V) :
    sinceReset (feeds ++ [f]) = f.push (sinceReset feeds) :=
  List.foldl_concat ..

/-- What a tracker of the weighted sums was fed since the last reset. -/
theorem sinceReset_weighted (n : Nat) (w : Nat → Rat) (feeds : List (Feed (List Rat))) :
    sinceReset (feeds.map (weightedFeed n w)) = (sinceReset feeds).map (weighted n w) := by
  induction feeds using List.reverseRecOn with
  | nil => rfl
  | append_singleton feeds f ih =>
      rw [List.map_append, List.map_singleton, sinceReset_concat, sinceReset_concat, ih]
      cases f with
      | update features => simp [Feed.push, weightedFeed]
      | reset => rfl

/-- **An entry of the matrix**, from what came in since the last reset. -/
theorem covarianceMatrix_feedAll {n : Nat} {feeds : List (Feed (List Rat))}
    {s : OnlineCovarianceMatrix} (h : feedAll n feeds = some s) {a b : Nat} (ha : a < n)
    (hb : b < n) :
    s.covarianceMatrix a b =
      if (sinceReset feeds).length < 2 then 0
      else coMoment (pairs a b (sinceReset feeds)) / ((sinceReset feeds).length - 1 : Nat) := by
  obtain ⟨-, size, trackers⟩ := batch_feedAll h
  have batch := trackers a ha b hb
  have len : (pairs a b (sinceReset feeds)).length = (sinceReset feeds).length :=
    List.length_map _
  rw [covarianceMatrix, if_pos (by omega), OnlineCovariance.covariance, batch.count, batch.cXy,
    len]

/-- The order of the features does not matter to a co-moment. -/
theorem coMoment_pairs_comm (a b : Nat) (vectors : List (List Rat)) :
    coMoment (pairs a b vectors) = coMoment (pairs b a vectors) := by
  simp only [coMoment, coMomentAbout, pairs, List.map_map, Function.comp_def]
  refine congrArg List.sum (List.map_congr_left fun v _ => mul_comm _ _)

/-- **The form of the matrix** at some weights is the variance of the weighted sums. -/
theorem form_feedAll {n : Nat} {feeds : List (Feed (List Rat))} {s : OnlineCovarianceMatrix}
    (h : feedAll n feeds = some s) (w : Nat → Rat) :
    ∑ a ∈ range n, ∑ b ∈ range n, w a * s.covarianceMatrix a b * w b =
      if (sinceReset feeds).length < 2 then 0
      else central 2 ((sinceReset feeds).map (weighted n w)) /
        ((sinceReset feeds).length - 1 : Nat) := by
  rw [← form_eq_central, sum_congr rfl fun a ha => sum_congr rfl fun b hb => by
    rw [covarianceMatrix_feedAll h (mem_range.mp ha) (mem_range.mp hb)]]
  split
  · simp
  · simp only [sum_div]
    exact sum_congr rfl fun a _ => sum_congr rfl fun b _ => by ring

/-- **The portfolio variance** of the matrix is the variance of the portfolio: the matrix is
symmetric, its form at any weights is what a tracker of the weighted sums reports, and that is
not negative. -/
theorem portfolioVariance_eq (n : Nat) (feeds : List (Feed (List Rat)))
    (s : OnlineCovarianceMatrix) (h : feedAll n feeds = some s) :
    (∀ a b, s.covarianceMatrix a b = s.covarianceMatrix b a) ∧
    ∀ w : Nat → Rat,
      ∑ a ∈ range n, ∑ b ∈ range n, w a * s.covarianceMatrix a b * w b =
          ((feeds.map (weightedFeed n w)).foldl OnlineVariance.feed .new).variance ∧
        0 ≤ ∑ a ∈ range n, ∑ b ∈ range n, w a * s.covarianceMatrix a b * w b := by
  obtain ⟨-, size, -⟩ := batch_feedAll h
  refine ⟨fun a b => ?_, fun w => ⟨?_, ?_⟩⟩
  · by_cases hab : a < n ∧ b < n
    · rw [covarianceMatrix_feedAll h hab.1 hab.2, covarianceMatrix_feedAll h hab.2 hab.1,
        coMoment_pairs_comm a b]
    · -- both entries are outside the matrix
      rw [covarianceMatrix, covarianceMatrix, if_neg (by rw [size]; exact hab),
        if_neg (by rw [size]; exact fun h => hab h.symm)]
  · have single : ((feeds.map (weightedFeed n w)).foldl OnlineVariance.feed .new).Batch
        ((sinceReset feeds).map (weighted n w)) := by
      rw [← sinceReset_weighted]
      exact foldl_feed OnlineVariance.batch_new (fun s values f hs => hs.feed f) _
    rw [form_feedAll h, OnlineVariance.variance, single.count, List.length_map, single.m2]
  · rw [form_feedAll h]
    split
    · exact le_rfl
    · refine div_nonneg (List.sum_nonneg fun y hy => ?_) (Nat.cast_nonneg _)
      obtain ⟨x, -, rfl⟩ := List.mem_map.mp hy
      positivity

/-- Two features and three vectors. -/
theorem portfolioVariance_eq_pair :
    (feedAll 2 [.update [1, 2], .update [3, 1], .update [2, 5]]).isSome = true ∧
      ∀ s, feedAll 2 [.update [1, 2], .update [3, 1], .update [2, 5]] = some s →
        0 ≤ ∑ a ∈ range 2, ∑ b ∈ range 2, 1 * s.covarianceMatrix a b * 1 :=
  ⟨rfl, fun s h => ((portfolioVariance_eq 2 _ s h).2 fun _ => 1).2⟩

end OnlineCovarianceMatrix

/-! ## Correlation -/

namespace OnlineCovariance

/-- `correlation`. -/
def correlation (sqrt : Rat → Rat) (s : OnlineCovariance) : Rat :=
  let cov := s.covariance
  let stdX := sqrt s.varX.variance
  let stdY := sqrt s.varY.variance
  if stdX < 1 / 10 ^ 12 ∨ stdY < 1 / 10 ^ 12 then 0 else cov / (stdX * stdY)

/-- **The Cauchy-Schwarz inequality** for the distances of pairs from two points. -/
theorem coMomentAbout_sq_le (a b : Rat) (ps : List (Rat × Rat)) :
    coMomentAbout a b ps ^ 2 ≤
      momentAbout 2 a (ps.map Prod.fst) * momentAbout 2 b (ps.map Prod.snd) := by
  -- the sum of the squares of all combinations is a square that is not negative
  have form : ∀ s t : Rat, 0 ≤ s ^ 2 * momentAbout 2 a (ps.map Prod.fst) +
      2 * s * t * coMomentAbout a b ps + t ^ 2 * momentAbout 2 b (ps.map Prod.snd) := by
    intro s t
    induction ps with
    | nil => simp [momentAbout, coMomentAbout]
    | cons p ps ih =>
        simp only [List.map_cons, momentAbout_cons, coMomentAbout_cons]
        have square := sq_nonneg (s * (p.1 - a) + t * (p.2 - b))
        linarith [ih]
  have hx : 0 ≤ momentAbout 2 a (ps.map Prod.fst) := by simpa using form 1 0
  obtain hpos | hzero := hx.lt_or_eq
  · have := form (-coMomentAbout a b ps) (momentAbout 2 a (ps.map Prod.fst))
    nlinarith
  · rw [← hzero, zero_mul]
    simp only [← hzero] at form
    by_contra hne
    have hc : coMomentAbout a b ps ≠ 0 := fun h => hne (by rw [h]; norm_num)
    have below := form (-(momentAbout 2 b (ps.map Prod.snd) + 1) / (2 * coMomentAbout a b ps)) 1
    have value : 2 * (-(momentAbout 2 b (ps.map Prod.snd) + 1) / (2 * coMomentAbout a b ps)) * 1 *
        coMomentAbout a b ps = -(momentAbout 2 b (ps.map Prod.snd) + 1) := by
      field_simp
    rw [value] at below
    linarith

/-- The square of the covariance is at most the product of the variances. -/
theorem Batch.covariance_sq_le {s : OnlineCovariance} {ps : List (Rat × Rat)} (h : s.Batch ps) :
    s.covariance ^ 2 ≤ s.varX.variance * s.varY.variance := by
  have cauchy : s.cXy ^ 2 ≤ s.varX.m2 * s.varY.m2 := by
    rw [h.cXy, h.varX.m2, h.varY.m2]
    exact coMomentAbout_sq_le _ _ ps
  have countX : s.varX.count = s.count := by rw [h.varX.count, h.count, List.length_map]
  have countY : s.varY.count = s.count := by rw [h.varY.count, h.count, List.length_map]
  rw [covariance, OnlineVariance.variance, OnlineVariance.variance, countX, countY]
  split
  · norm_num
  · rw [div_pow, div_mul_div_comm, ← pow_two]
    exact div_le_div_of_nonneg_right cauchy (sq_nonneg _)

/-- **A correlation is between minus one and one**, whatever was fed, if the square root is exact
at the two variances. -/
theorem correlation_range (feeds : List (Feed (Rat × Rat))) (sqrt : Rat → Rat)
    (exact' : ∀ v, v = (feeds.foldl feed new).varX.variance ∨
      v = (feeds.foldl feed new).varY.variance → sqrt v * sqrt v = v) :
    -1 ≤ correlation sqrt (feeds.foldl feed new) ∧
      correlation sqrt (feeds.foldl feed new) ≤ 1 := by
  have batch : (feeds.foldl feed new).Batch (sinceReset feeds) :=
    foldl_feed batch_new (fun s pairs f hs => hs.feed f) feeds
  obtain ⟨s, hs⟩ : ∃ s, s = feeds.foldl feed new := ⟨_, rfl⟩
  rw [← hs] at batch exact' ⊢
  unfold correlation
  dsimp only
  split
  · norm_num
  · rename_i hlarge
    rw [not_or, not_lt, not_lt] at hlarge
    have hx : 0 < sqrt s.varX.variance := lt_of_lt_of_le (by norm_num) hlarge.1
    have hy : 0 < sqrt s.varY.variance := lt_of_lt_of_le (by norm_num) hlarge.2
    have bound : s.covariance ^ 2 ≤ (sqrt s.varX.variance * sqrt s.varY.variance) ^ 2 := by
      calc s.covariance ^ 2 ≤ s.varX.variance * s.varY.variance := batch.covariance_sq_le
        _ = (sqrt s.varX.variance * sqrt s.varX.variance) *
            (sqrt s.varY.variance * sqrt s.varY.variance) := by
              rw [exact' _ (Or.inl rfl), exact' _ (Or.inr rfl)]
        _ = (sqrt s.varX.variance * sqrt s.varY.variance) ^ 2 := by ring
    have range := abs_le.mp (abs_le_of_sq_le_sq bound (mul_pos hx hy).le)
    constructor
    · rw [le_div_iff₀ (mul_pos hx hy)]
      linarith [range.1]
    · rw [div_le_one (mul_pos hx hy)]
      exact range.2

/-- Two variables on a line: variances one and four, correlation one. -/
theorem correlation_range_line :
    let sqrt : Rat → Rat := fun v => if v = 1 then 1 else 2
    let s := ([.update (0, 0), .update (1, 2), .update (2, 4)] :
      List (Feed (Rat × Rat))).foldl feed new
    s.varX.variance = 1 ∧ s.varY.variance = 4 ∧ -1 ≤ correlation sqrt s ∧
      correlation sqrt s ≤ 1 := by
  intro sqrt s
  have varX : s.varX.variance = 1 := by decide +kernel
  have varY : s.varY.variance = 4 := by decide +kernel
  refine ⟨varX, varY, correlation_range _ sqrt ?_⟩
  rintro v (rfl | rfl)
  · rw [varX]; decide +kernel
  · rw [varY]; decide +kernel

end OnlineCovariance

end StopTrading.Ml
