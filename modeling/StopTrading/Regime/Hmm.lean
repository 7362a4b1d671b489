import StopTrading.Library.CountedLoop
import StopTrading.Library.Trellis

/-!
# The hidden Markov model of market regimes

`HiddenMarkovModel` decodes regimes in two ways.  `viterbi` fills in a trellis and follows its
back pointers to a sequence of states; `forward` keeps a belief, the probabilities of the states
given what was observed so far.

Arithmetic is exact.  The exponential and the logarithm of the emission densities are
parameters, of which only that the exponential is not negative is used.

* `viterbi_optimal` — the sequence that `viterbi` returns is at least as likely, together with
  the observations, as every other sequence of states.
* `forward_posterior` — the belief is proportional to the sum over all paths through the
  states, and the factor is the likelihood of the observations that were not discarded; the
  belief stays a probability distribution.

### What is load-bearing

The recurrences themselves are not proved here.  `Library.Trellis` proves for any trellis that
the greatest products, and the sums over all paths, satisfy such a recurrence, and that the back
pointers lead along a heaviest path.  What this module adds is that the arrays which the code
fills are such a trellis: `viterbiColumn_spec` for the entries and back pointers of a column,
`newProb_eq` for the prediction and the update.

Both results need numbers that are not negative.  A product only grows with its factors if they
are not negative, and a sum of products may otherwise be zero with a positive path in it.
`NonNegative` is stated of the parameters alone, and `Prepared` says that the interface keeps it.

### Design decisions

* `forward` discards an observation whose total probability is not greater than `tiny`, and
  leaves the belief as it was.  The posterior is therefore the posterior of the observations that
  were *kept*, which `Observed` records beside the model.
* A sequence of states is a list of numbers below `numStates`, as `viterbi` returns it.  The sums
  of the posterior run over `Fin m.numStates`, because there they are sums over all paths.
-/

namespace StopTrading.Regime

open CountedLoop Trellis

universe u

variable {K : Type u}

/-- `MAX_SEQUENCE_LENGTH`. -/
def maxSequenceLength : Nat := 1024

/-- `ObservationFeatures`. -/
structure ObservationFeatures (K : Type u) where
  returns : K
  volatility : K
  skewness : K
  kurtosis : K
  volumeChange : K
  orderFlowImbalance : K
  deriving Repr, DecidableEq

/-- `HiddenMarkovModel`; the arrays are zero beyond what was stored. -/
structure HiddenMarkovModel (K : Type u) where
  numStates : Nat
  transitionProbs : Nat → Nat → K
  emissionMeans : Nat → Nat → K
  emissionVars : Nat → Nat → K
  initialProbs : Nat → K
  currentProbs : Nat → K
  updateCount : Nat
  currentState : Nat

section Field

variable [Field K] [LinearOrder K]

/-- `ObservationFeatures::default`. -/
instance : Inhabited (ObservationFeatures K) := ⟨⟨0, 0, 0, 0, 0, 0⟩⟩

/-- A decimal fraction. -/
def tenths (n : Nat) : K := (n : K) / (10 : Nat)

/-- The functions of the emission density. -/
structure ExpLn (K : Type u) where
  exp : K → K
  ln : K → K

namespace HiddenMarkovModel

/-! ## Construction -/

/-- `set_uniform_initial`. -/
def setUniformInitial (m : HiddenMarkovModel K) : HiddenMarkovModel K :=
  let prob := 1 / (m.numStates : K)
  forEach (fun i m => { m with
    initialProbs := Function.update m.initialProbs i prob
    currentProbs := Function.update m.currentProbs i prob }) 0 m.numStates m

/-- `set_uniform_transition`, before the rows are normalised. -/
def biasedTransition (numStates i j : Nat) : K :=
  let baseProb := tenths 7 / (numStates : K)
  let selfProb := tenths 3 + baseProb
  if i = j then selfProb else baseProb

/-- `set_uniform_transition`. -/
def setUniformTransition (m : HiddenMarkovModel K) : HiddenMarkovModel K :=
  let rowSum := fun i => sumFrom (biasedTransition (K := K) m.numStates i) 0 m.numStates
  { m with transitionProbs := fun i j =>
      if i < m.numStates ∧ j < m.numStates then biasedTransition m.numStates i j / rowSum i
      else m.transitionProbs i j }

/-- `HiddenMarkovModel::new`. -/
def new (numStates : Nat) : HiddenMarkovModel K :=
  setUniformTransition (setUniformInitial
    { numStates := numStates
      transitionProbs := fun _ _ => 0
      emissionMeans := fun _ _ => 0
      emissionVars := fun _ _ => 1
      initialProbs := fun _ => 0
      currentProbs := fun _ => 0
      updateCount := 0
      currentState := 0 })

/-- `set_transition_prob`; a failed assertion is `none`.  The row is not normalised again, and
nothing keeps a negative number out. -/
def setTransitionProb (m : HiddenMarkovModel K) (source target : Nat) (prob : K) :
    Option (HiddenMarkovModel K) :=
  if source < m.numStates ∧ target < m.numStates then
    some { m with transitionProbs := setAt m.transitionProbs source target prob }
  else none

/-- The loop of `set_emission_params` over the features that are given. -/
def storeEmission (least : K) (m : HiddenMarkovModel K) (state : Nat) (means vars : List K) :
    HiddenMarkovModel K :=
  forEach (fun i m => { m with
    emissionMeans := setAt m.emissionMeans state i (means.getD i 0)
    emissionVars := setAt m.emissionVars state i (max (vars.getD i 0) least) }) 0 means.length m

/-- `set_emission_params`; `least` is the `1e-10` that stands in for a variance of zero. -/
def setEmissionParams (least : K) (m : HiddenMarkovModel K) (state : Nat) (means vars : List K) :
    Option (HiddenMarkovModel K) :=
  if state < m.numStates ∧ means.length = vars.length ∧ means.length ≤ 6 then
    some (m.storeEmission least state means vars)
  else none

/-- `emission_probability`: the density of four of the features, without its constant factor. -/
def emissionProbability (f : ExpLn K) (m : HiddenMarkovModel K) (state : Nat)
    (obs : ObservationFeatures K) : K :=
  let term := fun (feature : Nat) (value : K) =>
    let diff := value - m.emissionMeans state feature
    let var := m.emissionVars state feature
    tenths 5 * (diff * diff / var + f.ln var)
  let logProb := 0 - term 0 obs.returns
  let logProb := logProb - term 1 obs.volatility
  let logProb := logProb - term 2 obs.skewness
  let logProb := logProb - term 5 obs.orderFlowImbalance
  f.exp logProb

/-! ## The Viterbi algorithm -/

/-- The loop that looks for the best predecessor of a state, given the column before. -/
def bestPrev (m : HiddenMarkovModel K) (column : Nat → K) (sCurr : Nat) : K × Nat :=
  forEach (fun sPrev (acc : K × Nat) =>
    let prob := column sPrev * m.transitionProbs sPrev sCurr
    if prob > acc.1 then (prob, sPrev) else acc) 0 m.numStates (0, 0)

/-- The trellis and its back pointers. -/
structure Tables (K : Type u) where
  trellis : Nat → Nat → K
  backpointers : Nat → Nat → Nat

/-- The first column of the trellis. -/
def firstColumn (f : ExpLn K) (m : HiddenMarkovModel K) (obs : ObservationFeatures K) :
    Tables K :=
  ⟨forEach (fun s trellis => setAt trellis 0 s (m.initialProbs s * m.emissionProbability f s obs))
      0 m.numStates fun _ _ => 0,
    fun _ _ => 0⟩

/-- One entry of column `t`. -/
def viterbiEntry (f : ExpLn K) (m : HiddenMarkovModel K) (obs : ObservationFeatures K)
    (t sCurr : Nat) (tables : Tables K) : Tables K :=
  let best := m.bestPrev (tables.trellis (t - 1)) sCurr
  ⟨setAt tables.trellis t sCurr (best.1 * m.emissionProbability f sCurr obs),
    setAt tables.backpointers t sCurr best.2⟩

/-- Column `t`. -/
def viterbiColumn (f : ExpLn K) (m : HiddenMarkovModel K) (obs : ObservationFeatures K) (t : Nat)
    (tables : Tables K) : Tables K :=
  forEach (m.viterbiEntry f obs t) 0 m.numStates tables

/-- The first greatest of the values of the states. -/
def argmax (numStates : Nat) (value : Nat → K) : Nat × K :=
  forEach (fun s (acc : Nat × K) => if value s > acc.2 then (s, value s) else acc) 1
    (numStates - 1) (0, value 0)

/-- The tables for a sequence of observations. -/
def viterbiTables (f : ExpLn K) (m : HiddenMarkovModel K)
    (observations : List (ObservationFeatures K)) : Tables K :=
  forEach (fun t => m.viterbiColumn f (observations.getD t default) t) 1
    (observations.length - 1) (m.firstColumn f (observations.getD 0 default))

/-- The states along the back pointers, from the last of `n` on. -/
def backtrack (backpointers : Nat → Nat → Nat) (n bestFinalState : Nat) : Nat → Nat :=
  forEach (fun i path =>
    let t := n - 1 - i
    Function.update path (t - 1) (backpointers t (path t))) 0 (n - 1)
    (Function.update (fun _ => 0) (n - 1) bestFinalState)

/-- **`viterbi`.** -/
def viterbi (f : ExpLn K) (m : HiddenMarkovModel K)
    (observations : List (ObservationFeatures K)) : List Nat :=
  let n := observations.length
  if n = 0 ∨ n > maxSequenceLength then []
  else
    let tables := m.viterbiTables f observations
    let best := argmax m.numStates (tables.trellis (n - 1))
    (List.range n).map (backtrack tables.backpointers n best.1)

/-! ## The forward algorithm -/

/-- `most_likely_state`. -/
def mostLikelyState (m : HiddenMarkovModel K) : Nat := (argmax m.numStates m.currentProbs).1

/-- The prediction and the update of one state in `forward`. -/
def newProb (f : ExpLn K) (m : HiddenMarkovModel K) (obs : ObservationFeatures K) (s : Nat) : K :=
  sumFrom (fun sPrev => m.currentProbs sPrev * m.transitionProbs sPrev s) 0 m.numStates *
    m.emissionProbability f s obs

/-- The probability of an observation, given those before. -/
def totalProb (f : ExpLn K) (m : HiddenMarkovModel K) (obs : ObservationFeatures K) : K :=
  sumFrom (m.newProb f obs) 0 m.numStates

/-- **`forward`**; `tiny` is `1e-300`. -/
def forward (f : ExpLn K) (tiny : K) (m : HiddenMarkovModel K) (obs : ObservationFeatures K) :
    HiddenMarkovModel K × K :=
  let totalProb := m.totalProb f obs
  let probs :=
    if totalProb > tiny then
      forEach (fun s probs => Function.update probs s (m.newProb f obs s / totalProb)) 0
        m.numStates m.currentProbs
    else m.currentProbs
  let m' := { m with currentProbs := probs }
  ({ m' with
      currentState := m'.mostLikelyState
      updateCount := (m.updateCount + 1) % 2 ^ 64 }, totalProb)

/-- `reset`. -/
def reset (m : HiddenMarkovModel K) : HiddenMarkovModel K :=
  { m.setUniformInitial with currentState := 0, updateCount := 0 }

/-! ## What the loops find -/

omit [Field K] in
/-- `argmax` finds a greatest value. -/
theorem argmax_spec {numStates : Nat} (pos : 0 < numStates) (value : Nat → K) :
    (argmax numStates value).1 < numStates ∧
      ∀ s < numStates, value s ≤ value (argmax numStates value).1 := by
  have found : (argmax numStates value).1 < numStates ∧
      (argmax numStates value).2 = value (argmax numStates value).1 ∧
      ∀ s < 1 + (numStates - 1), value s ≤ (argmax numStates value).2 := by
    refine forEach_invariant (fun i (acc : Nat × K) => acc.1 < numStates ∧
      acc.2 = value acc.1 ∧ ∀ s < i, value s ≤ acc.2) ?_ ⟨pos, rfl, fun s hs => ?_⟩
    · rintro i acc - hi ⟨hlt, heq, hle⟩
      split
      · rename_i hgt
        refine ⟨by omega, rfl, fun s hs => ?_⟩
        rcases Nat.lt_or_ge s i with hsi | hsi
        · exact (hle s hsi).trans hgt.le
        · rw [show s = i by omega]
      · rename_i hgt
        refine ⟨hlt, heq, fun s hs => ?_⟩
        rcases Nat.lt_or_ge s i with hsi | hsi
        · exact hle s hsi
        · rw [show s = i by omega]
          exact not_lt.mp hgt
    · rw [show s = 0 by omega]
  refine ⟨found.1, fun s hs => ?_⟩
  rw [← found.2.1]
  exact found.2.2 s (by omega)

/-- **The best predecessor**: a state whose product is the one returned, and the greatest. -/
theorem bestPrev_spec {m : HiddenMarkovModel K} (pos : 0 < m.numStates) {column : Nat → K}
    {sCurr : Nat} (nonneg : ∀ s < m.numStates, 0 ≤ column s * m.transitionProbs s sCurr) :
    (m.bestPrev column sCurr).2 < m.numStates ∧
      (m.bestPrev column sCurr).1 = column (m.bestPrev column sCurr).2 *
        m.transitionProbs (m.bestPrev column sCurr).2 sCurr ∧
      ∀ s < m.numStates,
        column s * m.transitionProbs s sCurr ≤ (m.bestPrev column sCurr).1 := by
  -- as long as no product is positive, the loop is at state zero with probability zero
  have found : (m.bestPrev column sCurr).2 < m.numStates ∧
      ((m.bestPrev column sCurr).1 = column (m.bestPrev column sCurr).2 *
          m.transitionProbs (m.bestPrev column sCurr).2 sCurr ∨
        m.bestPrev column sCurr = (0, 0)) ∧
      ∀ s < 0 + m.numStates,
        column s * m.transitionProbs s sCurr ≤ (m.bestPrev column sCurr).1 := by
    refine forEach_invariant (fun i (acc : K × Nat) => acc.2 < m.numStates ∧
      (acc.1 = column acc.2 * m.transitionProbs acc.2 sCurr ∨ acc = (0, 0)) ∧
      ∀ s < i, column s * m.transitionProbs s sCurr ≤ acc.1) ?_
      ⟨pos, Or.inr rfl, fun s hs => absurd hs (Nat.not_lt_zero s)⟩
    rintro i acc - hi ⟨hlt, heq, hle⟩
    dsimp only
    split
    · rename_i hgt
      refine ⟨by omega, Or.inl rfl, fun s hs => ?_⟩
      rcases Nat.lt_or_ge s i with hsi | hsi
      · exact (hle s hsi).trans hgt.le
      · rw [show s = i by omega]
    · rename_i hgt
      refine ⟨hlt, heq, fun s hs => ?_⟩
      rcases Nat.lt_or_ge s i with hsi | hsi
      · exact hle s hsi
      · rw [show s = i by omega]
        exact not_lt.mp hgt
  obtain ⟨hlt, heq, hle⟩ := found
  rw [Nat.zero_add] at hle
  refine ⟨hlt, ?_, hle⟩
  rcases heq with heq | hzero
  · exact heq
  · have hfirst := hle 0 pos
    rw [hzero] at hfirst ⊢
    exact le_antisymm (nonneg 0 pos) hfirst

/-- What column `t` looks like, and that the others stay. -/
theorem viterbiColumn_spec (f : ExpLn K) (m : HiddenMarkovModel K) (obs : ObservationFeatures K)
    {t : Nat} (ht : 0 < t) (tables : Tables K) :
    (∀ i, i ≠ t → (m.viterbiColumn f obs t tables).trellis i = tables.trellis i ∧
      (m.viterbiColumn f obs t tables).backpointers i = tables.backpointers i) ∧
    ∀ s < m.numStates,
      (m.viterbiColumn f obs t tables).trellis t s =
        (m.bestPrev (tables.trellis (t - 1)) s).1 * m.emissionProbability f s obs ∧
      (m.viterbiColumn f obs t tables).backpointers t s =
        (m.bestPrev (tables.trellis (t - 1)) s).2 := by
  have filled : (∀ i, i ≠ t → (m.viterbiColumn f obs t tables).trellis i = tables.trellis i ∧
        (m.viterbiColumn f obs t tables).backpointers i = tables.backpointers i) ∧
      ∀ s < 0 + m.numStates,
        (m.viterbiColumn f obs t tables).trellis t s =
          (m.bestPrev (tables.trellis (t - 1)) s).1 * m.emissionProbability f s obs ∧
        (m.viterbiColumn f obs t tables).backpointers t s =
          (m.bestPrev (tables.trellis (t - 1)) s).2 := by
    refine forEach_invariant (fun c (now : Tables K) =>
      (∀ i, i ≠ t → now.trellis i = tables.trellis i ∧
        now.backpointers i = tables.backpointers i) ∧
      ∀ s < c, now.trellis t s =
          (m.bestPrev (tables.trellis (t - 1)) s).1 * m.emissionProbability f s obs ∧
        now.backpointers t s = (m.bestPrev (tables.trellis (t - 1)) s).2) ?_
      ⟨fun _ _ => ⟨rfl, rfl⟩, fun s hs => absurd hs (Nat.not_lt_zero s)⟩
    rintro c now - - ⟨others, column⟩
    refine ⟨fun i hi => ?_, fun s hs => ?_⟩
    · simp only [viterbiEntry]
      rw [setAt_row_ne _ c _ hi, setAt_row_ne _ c _ hi]
      exact others i hi
    · simp only [viterbiEntry, (others (t - 1) (by omega)).1]
      by_cases hsc : s = c
      · rw [hsc, setAt_self, setAt_self]
        exact ⟨rfl, rfl⟩
      · rw [setAt_col_ne _ t t _ hsc, setAt_col_ne _ t t _ hsc]
        exact column s (by omega)
  rw [Nat.zero_add] at filled
  exact filled

omit [LinearOrder K] in
/-- The first column: the initial probability times that of the first observation. -/
theorem firstColumn_spec (f : ExpLn K) (m : HiddenMarkovModel K) (obs : ObservationFeatures K) :
    ∀ s < m.numStates, (m.firstColumn f obs).trellis 0 s =
      m.initialProbs s * m.emissionProbability f s obs := by
  have filled : ∀ s < 0 + m.numStates, (m.firstColumn f obs).trellis 0 s =
      m.initialProbs s * m.emissionProbability f s obs := by
    refine forEach_invariant (fun c (trellis : Nat → Nat → K) =>
      ∀ s < c, trellis 0 s = m.initialProbs s * m.emissionProbability f s obs) ?_
      fun s hs => absurd hs (Nat.not_lt_zero s)
    intro c trellis _ _ column s hs
    by_cases hsc : s = c
    · rw [hsc, setAt_self]
    · rw [setAt_col_ne _ 0 0 _ hsc]
      exact column s (by omega)
  rw [Nat.zero_add] at filled
  exact filled

/-- The states that `backtrack` visits. -/
theorem backtrack_spec (backpointers : Nat → Nat → Nat) {n : Nat} (best : Nat) :
    backtrack backpointers n best (n - 1) = best ∧
      ∀ t < n - 1, backtrack backpointers n best t =
        backpointers (t + 1) (backtrack backpointers n best (t + 1)) := by
  have followed : backtrack backpointers n best (n - 1) = best ∧
      ∀ t < n - 1, n - 1 - (0 + (n - 1)) ≤ t → backtrack backpointers n best t =
        backpointers (t + 1) (backtrack backpointers n best (t + 1)) := by
    refine forEach_invariant (fun i (path : Nat → Nat) => path (n - 1) = best ∧
      ∀ t < n - 1, n - 1 - i ≤ t → path t = backpointers (t + 1) (path (t + 1))) ?_
      ⟨Function.update_self _ _ _, fun t ht hle => by omega⟩
    rintro i path - hi ⟨hlast, hpath⟩
    refine ⟨?_, fun t ht hle => ?_⟩
    · rw [Function.update_of_ne (by omega)]
      exact hlast
    · by_cases hti : t = n - 1 - i - 1
      · rw [hti, Function.update_self, Function.update_of_ne (by omega),
          show n - 1 - i - 1 + 1 = n - 1 - i by omega]
      · rw [Function.update_of_ne hti, Function.update_of_ne (by omega)]
        exact hpath t ht (by omega)
  exact ⟨followed.1, fun t ht => followed.2 t ht (by omega)⟩

/-! ## Viterbi -/

/-- The factor of a path for its first state. -/
def firstFactor (f : ExpLn K) (m : HiddenMarkovModel K)
    (observations : List (ObservationFeatures K)) (s : Nat) : K :=
  m.initialProbs s * m.emissionProbability f s (observations.getD 0 default)

/-- The factor of a path for its move after time `t`. -/
def moveFactor (f : ExpLn K) (m : HiddenMarkovModel K)
    (observations : List (ObservationFeatures K)) (t r s : Nat) : K :=
  m.transitionProbs r s * m.emissionProbability f s (observations.getD (t + 1) default)

/-- **The joint probability** of a sequence of states and the observations. -/
def jointProbability (f : ExpLn K) (m : HiddenMarkovModel K)
    (observations : List (ObservationFeatures K)) (states : List Nat) : K :=
  pathWeight (m.firstFactor f observations) (m.moveFactor f observations)
    (fun t => states.getD t 0) (observations.length - 1)

/-- The parameters are probabilities as far as their sign goes. -/
structure NonNegative (f : ExpLn K) (m : HiddenMarkovModel K) : Prop where
  initial : ∀ s, 0 ≤ m.initialProbs s
  transition : ∀ r s, 0 ≤ m.transitionProbs r s
  /-- An exponential is not negative. -/
  exp : ∀ x, 0 ≤ f.exp x

variable [IsStrictOrderedRing K]

/-- **One column** continues the tables, and keeps their last entries from being negative. -/
theorem maxProduct_viterbiColumn {f : ExpLn K} {m : HiddenMarkovModel K} (pos : 0 < m.numStates)
    (nonneg : NonNegative f m) {observations : List (ObservationFeatures K)} {t : Nat}
    {tables tables' : Tables K}
    (htables : tables' = m.viterbiColumn f (observations.getD (t + 1) default) (t + 1) tables)
    (table : MaxProduct (m.firstFactor f observations) (m.moveFactor f observations) m.numStates t
      tables.trellis tables.backpointers)
    (column : ∀ s < m.numStates, 0 ≤ tables.trellis t s) :
    MaxProduct (m.firstFactor f observations) (m.moveFactor f observations) m.numStates (t + 1)
        tables'.trellis tables'.backpointers ∧
      ∀ s < m.numStates, 0 ≤ tables'.trellis (t + 1) s := by
  obtain ⟨others, filled⟩ := viterbiColumn_spec f m (observations.getD (t + 1) default)
    (Nat.succ_pos t) tables
  rw [← htables] at others filled
  rw [Nat.succ_eq_add_one, Nat.add_sub_cancel] at filled
  have products : ∀ s, ∀ r < m.numStates, 0 ≤ tables.trellis t r * m.transitionProbs r s :=
    fun s r hr => mul_nonneg (column r hr) (nonneg.transition r s)
  refine ⟨table.extend others (fun s hs => ?_) (fun s hs => ?_) fun s hs r hr => ?_,
    fun s hs => ?_⟩
  · rw [(filled s hs).2]
    exact (bestPrev_spec pos (products s)).1
  · rw [(filled s hs).1, (filled s hs).2, moveFactor, ← mul_assoc,
      ← (bestPrev_spec pos (products s)).2.1]
  · rw [(filled s hs).1, moveFactor, ← mul_assoc]
    exact mul_le_mul_of_nonneg_right ((bestPrev_spec pos (products s)).2.2 r hr) (nonneg.exp _)
  · rw [(filled s hs).1, (bestPrev_spec pos (products s)).2.1]
    exact mul_nonneg (products s _ (bestPrev_spec pos (products s)).1) (nonneg.exp _)

/-- **The tables are tables of heaviest paths.** -/
theorem maxProduct_viterbiTables {f : ExpLn K} {m : HiddenMarkovModel K} (pos : 0 < m.numStates)
    (nonneg : NonNegative f m) (observations : List (ObservationFeatures K)) :
    MaxProduct (m.firstFactor f observations) (m.moveFactor f observations) m.numStates
      (observations.length - 1) (m.viterbiTables f observations).trellis
      (m.viterbiTables f observations).backpointers := by
  have filled : MaxProduct (m.firstFactor f observations) (m.moveFactor f observations) m.numStates
        (1 + (observations.length - 1) - 1) (m.viterbiTables f observations).trellis
        (m.viterbiTables f observations).backpointers ∧
      ∀ s < m.numStates, 0 ≤
        (m.viterbiTables f observations).trellis (1 + (observations.length - 1) - 1) s := by
    refine forEach_invariant (fun t (tables : Tables K) =>
      MaxProduct (m.firstFactor f observations) (m.moveFactor f observations) m.numStates (t - 1)
        tables.trellis tables.backpointers ∧ ∀ s < m.numStates, 0 ≤ tables.trellis (t - 1) s)
      ?_ ⟨maxProduct_zero (firstColumn_spec f m _), ?_⟩
    · rintro t tables ht - ⟨table, column⟩
      obtain ⟨u, rfl⟩ : ∃ u, t = u + 1 := ⟨t - 1, by omega⟩
      exact maxProduct_viterbiColumn pos nonneg rfl table column
    · intro s hs
      rw [firstColumn_spec f m _ s hs]
      exact mul_nonneg (nonneg.initial s) (nonneg.exp _)
  rw [Nat.add_sub_cancel_left] at filled
  exact filled.1

/-! ## The model that `new` makes -/

omit [LinearOrder K] [IsStrictOrderedRing K] in
/-- `set_uniform_initial` changes the initial probabilities and the belief. -/
theorem setUniformInitial_spec (m : HiddenMarkovModel K) :
    m.setUniformInitial.numStates = m.numStates ∧
      m.setUniformInitial.transitionProbs = m.transitionProbs ∧
      (∀ i, m.setUniformInitial.initialProbs i =
        if i < m.numStates then 1 / (m.numStates : K) else m.initialProbs i) ∧
      ∀ i, m.setUniformInitial.currentProbs i =
        if i < m.numStates then 1 / (m.numStates : K) else m.currentProbs i := by
  have stored : m.setUniformInitial.numStates = m.numStates ∧
      m.setUniformInitial.transitionProbs = m.transitionProbs ∧
      (∀ i, m.setUniformInitial.initialProbs i =
        if i < 0 + m.numStates then 1 / (m.numStates : K) else m.initialProbs i) ∧
      ∀ i, m.setUniformInitial.currentProbs i =
        if i < 0 + m.numStates then 1 / (m.numStates : K) else m.currentProbs i := by
    refine forEach_invariant (fun c (now : HiddenMarkovModel K) =>
      now.numStates = m.numStates ∧ now.transitionProbs = m.transitionProbs ∧
      (∀ i, now.initialProbs i =
        if i < c then 1 / (m.numStates : K) else m.initialProbs i) ∧
      ∀ i, now.currentProbs i = if i < c then 1 / (m.numStates : K) else m.currentProbs i)
      ?_ ⟨rfl, rfl, fun _ => rfl, fun _ => rfl⟩
    rintro c now - - ⟨states, transition, initial, current⟩
    refine ⟨states, transition, fun i => ?_, fun i => ?_⟩ <;> dsimp only
    · by_cases hic : i = c
      · rw [hic, Function.update_self, if_pos (Nat.lt_succ_self c)]
      · rw [Function.update_of_ne hic, initial]
        exact if_congr (by omega) rfl rfl
    · by_cases hic : i = c
      · rw [hic, Function.update_self, if_pos (Nat.lt_succ_self c)]
      · rw [Function.update_of_ne hic, current]
        exact if_congr (by omega) rfl rfl
  rwa [Nat.zero_add] at stored

/-- Decimal fractions are not negative, -/
theorem tenths_nonneg (n : Nat) : (0 : K) ≤ tenths n :=
  div_nonneg (Nat.cast_nonneg n) (Nat.cast_nonneg 10)

/-- and so are the biased probabilities. -/
theorem biasedTransition_nonneg (numStates i j : Nat) :
    (0 : K) ≤ biasedTransition numStates i j := by
  have base : (0 : K) ≤ tenths 7 / (numStates : K) :=
    div_nonneg (tenths_nonneg 7) (Nat.cast_nonneg numStates)
  unfold biasedTransition
  dsimp only
  split
  · exact add_nonneg (tenths_nonneg 3) base
  · exact base

/-! ## What the public calls keep

`set_transition_prob` is the one way in for a negative parameter.  As long as it is given
probabilities, a model is `Prepared` from `new` on: `viterbi` and `forward` find what they need. -/

/-- No negative parameter, and a belief that is a probability distribution. -/
structure Prepared (f : ExpLn K) (m : HiddenMarkovModel K) : Prop where
  nonNegative : NonNegative f m
  /-- The belief is a distribution over the states: no part of it is negative, -/
  belief_nonneg : ∀ s, 0 ≤ m.currentProbs s
  /-- and it is one in all. -/
  belief_total : ∑ s ∈ Finset.range m.numStates, m.currentProbs s = 1

omit [IsStrictOrderedRing K] in
/-- The belief, summed over the states as `forward_posterior` does. -/
theorem Prepared.belief_sum {f : ExpLn K} {m : HiddenMarkovModel K} (h : Prepared f m) :
    ∑ s : Fin m.numStates, m.currentProbs s = 1 := by
  rw [← Finset.sum_range fun s => m.currentProbs s]
  exact h.belief_total

/-- `set_uniform_initial` makes a distribution, whatever was believed before. -/
theorem Prepared.setUniformInitial {f : ExpLn K} {m : HiddenMarkovModel K}
    (pos : 0 < m.numStates) (nonNegative : NonNegative f m) (nonneg : ∀ s, 0 ≤ m.currentProbs s) :
    Prepared f m.setUniformInitial := by
  obtain ⟨states, transition, initial, belief⟩ := setUniformInitial_spec m
  have uniform : (0 : K) ≤ 1 / m.numStates := div_nonneg zero_le_one (Nat.cast_nonneg _)
  refine ⟨⟨fun s => ?_, ?_, nonNegative.exp⟩, fun s => ?_, ?_⟩
  · rw [initial]
    split
    · exact uniform
    · exact nonNegative.initial s
  · rw [transition]
    exact nonNegative.transition
  · rw [belief]
    split
    · exact uniform
    · exact nonneg s
  · rw [states, Finset.sum_congr rfl fun s hs => (belief s).trans (if_pos (Finset.mem_range.mp hs)),
      Finset.sum_const, Finset.card_range, nsmul_eq_mul, mul_one_div_cancel]
    exact Nat.cast_ne_zero.mpr pos.ne'

/-- `set_uniform_transition` puts quotients of positive numbers into every row. -/
theorem Prepared.setUniformTransition {f : ExpLn K} {m : HiddenMarkovModel K}
    (h : Prepared f m) : Prepared f m.setUniformTransition where
  nonNegative :=
    { initial := h.nonNegative.initial
      transition := fun r s => by
        unfold HiddenMarkovModel.setUniformTransition
        dsimp only
        split
        · refine div_nonneg (biasedTransition_nonneg _ _ _) ?_
          rw [sumFrom_zero_eq]
          exact Finset.sum_nonneg fun j _ => biasedTransition_nonneg _ _ _
        · exact h.nonNegative.transition r s
      exp := h.nonNegative.exp }
  belief_nonneg := h.belief_nonneg
  belief_total := h.belief_total

/-- A new model is prepared, -/
theorem Prepared.new {f : ExpLn K} (exp : ∀ x, 0 ≤ f.exp x) {numStates : Nat}
    (pos : 0 < numStates) : Prepared f (new numStates) :=
  (Prepared.setUniformInitial pos ⟨fun _ => le_rfl, fun _ _ => le_rfl, exp⟩
    fun _ => le_rfl).setUniformTransition

/-- and a prepared one that is reset still is. -/
theorem Prepared.reset {f : ExpLn K} {m : HiddenMarkovModel K} (h : Prepared f m)
    (pos : 0 < m.numStates) : Prepared f m.reset :=
  have uniform := Prepared.setUniformInitial pos h.nonNegative h.belief_nonneg
  ⟨⟨uniform.nonNegative.initial, uniform.nonNegative.transition, h.nonNegative.exp⟩,
    uniform.belief_nonneg, uniform.belief_total⟩

omit [IsStrictOrderedRing K] in
/-- `set_transition_prob`, if it is given a probability. -/
theorem Prepared.setTransitionProb {f : ExpLn K} {m : HiddenMarkovModel K} (h : Prepared f m)
    (source target : Nat) (hsource : source < m.numStates) (htarget : target < m.numStates)
    {prob : K} (hprob : 0 ≤ prob) :
    ∃ m', m.setTransitionProb source target prob = some m' ∧ Prepared f m' ∧
      m'.numStates = m.numStates := by
  refine ⟨_, if_pos ⟨hsource, htarget⟩,
    ⟨⟨h.nonNegative.initial, fun r s => ?_, h.nonNegative.exp⟩, h.belief_nonneg,
      h.belief_total⟩, rfl⟩
  show 0 ≤ setAt m.transitionProbs source target prob r s
  by_cases hr : r = source
  · by_cases hs : s = target
    · rw [hr, hs, setAt_self]
      exact hprob
    · rw [setAt_col_ne _ _ _ _ hs]
      exact h.nonNegative.transition r s
  · rw [setAt_row_ne _ _ _ hr]
    exact h.nonNegative.transition r s

omit [IsStrictOrderedRing K] in
/-- `set_emission_params`, whatever it is given: emissions have no sign to keep. -/
theorem Prepared.setEmissionParams {f : ExpLn K} {m : HiddenMarkovModel K} (h : Prepared f m)
    (least : K) (state : Nat) (means vars : List K) (hstate : state < m.numStates)
    (hlen : means.length = vars.length) (hsix : means.length ≤ 6) :
    ∃ m', m.setEmissionParams least state means vars = some m' ∧ Prepared f m' ∧
      m'.numStates = m.numStates := by
  obtain ⟨m', hm'⟩ : ∃ m', m' = m.storeEmission least state means vars := ⟨_, rfl⟩
  have same : m'.numStates = m.numStates ∧ m'.transitionProbs = m.transitionProbs ∧
      m'.initialProbs = m.initialProbs ∧ m'.currentProbs = m.currentProbs := by
    rw [hm']
    exact forEach_invariant (fun _ (now : HiddenMarkovModel K) =>
      now.numStates = m.numStates ∧ now.transitionProbs = m.transitionProbs ∧
        now.initialProbs = m.initialProbs ∧ now.currentProbs = m.currentProbs)
      (fun _ _ _ _ same => same) ⟨rfl, rfl, rfl, rfl⟩
  obtain ⟨states, transition, initial, belief⟩ := same
  refine ⟨m', ?_, ⟨⟨?_, ?_, h.nonNegative.exp⟩, ?_, ?_⟩, states⟩
  · rw [hm']
    exact if_pos ⟨hstate, hlen, hsix⟩
  · rw [initial]
    exact h.nonNegative.initial
  · rw [transition]
    exact h.nonNegative.transition
  · rw [belief]
    exact h.belief_nonneg
  · rw [states, belief]
    exact h.belief_total

/-- A bear and a bull market, which returns tell apart: they are around minus one in the first
and around one in the second, and both last. -/
def bearAndBull : Option (HiddenMarkovModel K) := do
  let m ← (new 2).setTransitionProb 0 1 (tenths 2)
  let m ← m.setTransitionProb 1 0 (tenths 2)
  let m ← m.setEmissionParams (tenths 1 ^ 10) 0 [-1] [1]
  m.setEmissionParams (tenths 1 ^ 10) 1 [1] [1]

/-- An observation of a return, and of nothing else. -/
def returning (x : K) : ObservationFeatures K := ⟨x, 0, 0, 0, 0, 0⟩

/-- The two markets can be set up, and make a prepared model. -/
theorem prepared_bearAndBull {f : ExpLn K} (exp : ∀ x, 0 ≤ f.exp x) :
    ∃ m : HiddenMarkovModel K, bearAndBull = some m ∧ Prepared f m ∧ m.numStates = 2 := by
  have states : (new 2 : HiddenMarkovModel K).numStates = 2 := rfl
  obtain ⟨m₁, h₁, prepared₁, states₁⟩ := (Prepared.new exp (Nat.zero_lt_two)).setTransitionProb
    0 1 (by omega) (by omega) (tenths_nonneg 2)
  obtain ⟨m₂, h₂, prepared₂, states₂⟩ := prepared₁.setTransitionProb
    1 0 (by omega) (by omega) (tenths_nonneg 2)
  obtain ⟨m₃, h₃, prepared₃, states₃⟩ := prepared₂.setEmissionParams
    (tenths 1 ^ 10) 0 [-1] [1] (by omega) rfl (by simp)
  obtain ⟨m₄, h₄, prepared₄, states₄⟩ := prepared₃.setEmissionParams
    (tenths 1 ^ 10) 1 [1] [1] (by omega) rfl (by simp)
  refine ⟨m₄, ?_, prepared₄, by omega⟩
  simp only [bearAndBull, h₁, h₂, h₃, h₄, Option.bind_eq_bind, Option.bind_some]

/-! ## The optimum -/

/-- **What `viterbi` returns** is a path of states, as heavy as the greatest entry of the last
column. -/
theorem exists_viterbi_path {f : ExpLn K} {m : HiddenMarkovModel K} (pos : 0 < m.numStates)
    (nonneg : NonNegative f m) {observations : List (ObservationFeatures K)}
    (hne : observations ≠ []) (bound : observations.length ≤ maxSequenceLength) :
    ∃ path : Nat → Nat, m.viterbi f observations = (List.range observations.length).map path ∧
      (∀ t < observations.length, path t < m.numStates) ∧
      ∀ s < m.numStates,
        (m.viterbiTables f observations).trellis (observations.length - 1) s ≤
          pathWeight (m.firstFactor f observations) (m.moveFactor f observations) path
            (observations.length - 1) := by
  have hpos : 0 < observations.length := List.length_pos_iff.mpr hne
  have table := maxProduct_viterbiTables pos nonneg observations
  obtain ⟨best, hbest⟩ : ∃ best, best = (argmax m.numStates
    ((m.viterbiTables f observations).trellis (observations.length - 1))).1 := ⟨_, rfl⟩
  obtain ⟨hlt, hmax⟩ := argmax_spec pos
    ((m.viterbiTables f observations).trellis (observations.length - 1))
  rw [← hbest] at hlt hmax
  obtain ⟨path, hpath⟩ : ∃ path, path = backtrack
    (m.viterbiTables f observations).backpointers observations.length best := ⟨_, rfl⟩
  obtain ⟨hlast, halong⟩ := backtrack_spec (m.viterbiTables f observations).backpointers
    (n := observations.length) best
  rw [← hpath] at hlast halong
  refine ⟨path, by rw [viterbi, if_neg (by omega), hpath, hbest], fun t ht => ?_, fun s hs => ?_⟩
  · have := table.path_lt le_rfl (hlast ▸ hlt) halong (k := observations.length - 1 - t) (by omega)
    rwa [show observations.length - 1 - (observations.length - 1 - t) = t by omega] at this
  · rw [table.eq le_rfl (hlast ▸ hlt) halong le_rfl, hlast]
    exact hmax s hs

/-- **`viterbi` finds a most likely sequence of states.** -/
theorem viterbi_optimal (f : ExpLn K) (m : HiddenMarkovModel K) (pos : 0 < m.numStates)
    (nonneg : NonNegative f m) (observations : List (ObservationFeatures K))
    (hne : observations ≠ []) (bound : observations.length ≤ maxSequenceLength) :
    (m.viterbi f observations).length = observations.length ∧
    (∀ s ∈ m.viterbi f observations, s < m.numStates) ∧
    ∀ states : List Nat, states.length = observations.length →
      (∀ s ∈ states, s < m.numStates) →
        m.jointProbability f observations states ≤
          m.jointProbability f observations (m.viterbi f observations) := by
  have hpos : 0 < observations.length := List.length_pos_iff.mpr hne
  have table := maxProduct_viterbiTables pos nonneg observations
  obtain ⟨path, result, states, heaviest⟩ := exists_viterbi_path pos nonneg hne bound
  refine ⟨by rw [result, List.length_map, List.length_range], ?_, fun q hlen hq => ?_⟩
  · intro s hs
    rw [result] at hs
    obtain ⟨t, ht, rfl⟩ := List.mem_map.mp hs
    exact states t (List.mem_range.mp ht)
  · have hstates : ∀ t ≤ observations.length - 1, q.getD t 0 < m.numStates := by
      intro t ht
      have htq : t < q.length := by omega
      rw [List.getD_eq_getElem q 0 htq]
      exact hq _ (List.getElem_mem htq)
    -- beyond its end a list of states does not matter
    have agree : ∀ t ≤ observations.length - 1,
        (m.viterbi f observations).getD t 0 = path t := by
      intro t ht
      simp [result, List.getD, show t < observations.length by omega]
    have weight : m.jointProbability f observations (m.viterbi f observations) =
        pathWeight (m.firstFactor f observations) (m.moveFactor f observations) path
          (observations.length - 1) := pathWeight_congr _ _ agree
    rw [weight]
    exact (table.le (fun t r s => mul_nonneg (nonneg.transition r s) (nonneg.exp _)) le_rfl
      hstates).trans (heaviest _ (hstates _ le_rfl))

/-- A rising return and two falling ones are decoded, -/
theorem viterbi_optimal_bearAndBull :
    let f : ExpLn ℝ := ⟨Real.exp, Real.log⟩
    ∃ m : HiddenMarkovModel ℝ, bearAndBull = some m ∧
      (m.viterbi f [returning 1, returning (-1), returning (-1)]).length = 3 ∧
      m.jointProbability f [returning 1, returning (-1), returning (-1)] [1, 0, 0] ≤
        m.jointProbability f [returning 1, returning (-1), returning (-1)]
          (m.viterbi f [returning 1, returning (-1), returning (-1)]) := by
  intro f
  obtain ⟨m, hm, prepared, states⟩ := prepared_bearAndBull (f := f) fun x => (Real.exp_pos x).le
  obtain ⟨hlen, -, hmax⟩ := viterbi_optimal f m (by omega) prepared.nonNegative
    [returning 1, returning (-1), returning (-1)] (by simp) (by simp [maxSequenceLength])
  exact ⟨m, hm, hlen, hmax [1, 0, 0] rfl (by simp [states])⟩

/-! ## The posterior -/

/-- A model, the observations it has not discarded, and the product of their probabilities. -/
structure Observed (K : Type u) where
  model : HiddenMarkovModel K
  kept : List (ObservationFeatures K)
  likelihood : K

/-- One call to `forward`. -/
def observe (f : ExpLn K) (tiny : K) (o : Observed K) (obs : ObservationFeatures K) : Observed K :=
  let step := o.model.forward f tiny obs
  if step.2 > tiny then ⟨step.1, o.kept ++ [obs], o.likelihood * step.2⟩
  else ⟨step.1, o.kept, o.likelihood⟩

/-- Many calls to `forward`. -/
def observeAll (f : ExpLn K) (tiny : K) (m : HiddenMarkovModel K)
    (observations : List (ObservationFeatures K)) : Observed K :=
  observations.foldl (observe f tiny) ⟨m, [], 1⟩

/-- The factor of a path for its move to the `t`-th kept observation. -/
def keptFactor (f : ExpLn K) (m : HiddenMarkovModel K) (kept : List (ObservationFeatures K))
    (t r s : Nat) : K :=
  m.transitionProbs r s * m.emissionProbability f s (kept.getD t default)

/-- The sum over all paths from the first belief of `m` to a state, through the kept
observations. -/
def keptSum (f : ExpLn K) (m : HiddenMarkovModel K) (kept : List (ObservationFeatures K))
    (s : Fin m.numStates) : K :=
  pathSum m.currentProbs (m.keptFactor f kept) m.numStates kept.length s

/-- **The belief is the posterior** of the observations that were kept. -/
structure Posterior (f : ExpLn K) (prior : HiddenMarkovModel K) (o : Observed K) : Prop where
  belief_nonneg : ∀ s, 0 ≤ o.model.currentProbs s
  belief_sum : ∑ s : Fin prior.numStates, o.model.currentProbs s = 1
  /-- The kept observations were possible. -/
  likelihood_pos : 0 < o.likelihood
  /-- Their likelihood is that of all paths together. -/
  likelihood_eq : o.likelihood = ∑ s, prior.keptSum f o.kept s
  /-- The belief in a state is the share of the paths that end in it. -/
  posterior : ∀ s : Fin prior.numStates,
    o.model.currentProbs s * o.likelihood = prior.keptSum f o.kept s

/-- Two models with the same parameters, and maybe different beliefs. -/
structure SameParameters (f : ExpLn K) (m m' : HiddenMarkovModel K) : Prop where
  /-- The states, the transitions and the emissions are the same; -/
  numStates : m'.numStates = m.numStates
  transition : m'.transitionProbs = m.transitionProbs
  /-- the emissions are compared as a function of the observation. -/
  emission : m'.emissionProbability f = m.emissionProbability f

omit [IsStrictOrderedRing K] in
/-- What `forward` leaves alone. -/
theorem forward_same (f : ExpLn K) (tiny : K) (m : HiddenMarkovModel K)
    (obs : ObservationFeatures K) : SameParameters f m (m.forward f tiny obs).1 :=
  ⟨rfl, rfl, rfl⟩

omit [IsStrictOrderedRing K] in
/-- The belief after `forward`. -/
theorem forward_belief (f : ExpLn K) (tiny : K) (m : HiddenMarkovModel K)
    (obs : ObservationFeatures K) (s : Nat) :
    (m.forward f tiny obs).1.currentProbs s =
      if m.totalProb f obs > tiny ∧ s < m.numStates then m.newProb f obs s / m.totalProb f obs
      else m.currentProbs s := by
  have normalised : ∀ s, forEach (fun s probs =>
      Function.update probs s (m.newProb f obs s / m.totalProb f obs)) 0 m.numStates
        m.currentProbs s =
      if s < 0 + m.numStates then m.newProb f obs s / m.totalProb f obs
      else m.currentProbs s := by
    refine forEach_invariant (fun c (probs : Nat → K) => ∀ s, probs s =
      if s < c then m.newProb f obs s / m.totalProb f obs else m.currentProbs s) ?_ fun _ => rfl
    intro c probs _ _ h s
    by_cases hsc : s = c
    · rw [hsc, Function.update_self, if_pos (Nat.lt_succ_self c)]
    · rw [Function.update_of_ne hsc, h]
      exact if_congr (by omega) rfl rfl
  unfold forward
  dsimp only
  by_cases htotal : m.totalProb f obs > tiny
  · rw [if_pos htotal, normalised, Nat.zero_add]
    exact if_congr (by simp [htotal]) rfl rfl
  · rw [if_neg htotal, if_neg fun h => htotal h.1]

/-- What `forward` computes for a state is not negative. -/
theorem newProb_nonneg {f : ExpLn K} {prior m : HiddenMarkovModel K}
    (nonneg : NonNegative f prior) (same : SameParameters f prior m)
    (belief : ∀ s, 0 ≤ m.currentProbs s) (obs : ObservationFeatures K) (s : Nat) :
    0 ≤ m.newProb f obs s := by
  unfold newProb
  rw [sumFrom_zero_eq, same.transition, same.emission]
  exact mul_nonneg (Finset.sum_nonneg fun r _ => mul_nonneg (belief r) (nonneg.transition r s))
    (nonneg.exp _)

omit [LinearOrder K] [IsStrictOrderedRing K] in
/-- The sums over the paths through one more observation. -/
theorem keptSum_concat (f : ExpLn K) (m : HiddenMarkovModel K)
    (kept : List (ObservationFeatures K)) (obs : ObservationFeatures K) (s : Fin m.numStates) :
    m.keptSum f (kept ++ [obs]) s =
      ∑ r, m.keptSum f kept r * (m.transitionProbs r s * m.emissionProbability f s obs) := by
  have before : pathSum m.currentProbs (m.keptFactor f (kept ++ [obs])) m.numStates kept.length =
      pathSum m.currentProbs (m.keptFactor f kept) m.numStates kept.length := by
    refine pathSum_congr _ _ _ fun i hi => ?_
    funext r t
    rw [keptFactor, keptFactor, List.getD_append _ _ _ _ hi]
  have last : ∀ r : Fin m.numStates, m.keptFactor f (kept ++ [obs]) kept.length r s =
      m.transitionProbs r s * m.emissionProbability f s obs := by
    intro r
    rw [keptFactor, List.getD_append_right _ _ _ _ le_rfl, Nat.sub_self, List.getD_cons_zero]
  unfold keptSum
  rw [List.length_append, List.length_singleton, pathSum_succ]
  refine Finset.sum_congr rfl fun r _ => ?_
  rw [before, last]

omit [IsStrictOrderedRing K] in
/-- What the prediction and the update compute, up to the likelihood. -/
theorem newProb_eq {f : ExpLn K} {prior : HiddenMarkovModel K} {o : Observed K}
    (same : SameParameters f prior o.model) (h : Posterior f prior o)
    (obs : ObservationFeatures K) (s : Fin prior.numStates) :
    o.model.newProb f obs s * o.likelihood = prior.keptSum f (o.kept ++ [obs]) s := by
  rw [keptSum_concat, newProb, sumFrom_zero_eq, same.numStates, same.transition, same.emission,
    Finset.sum_range, Finset.sum_mul, Finset.sum_mul]
  refine Finset.sum_congr rfl fun r _ => ?_
  rw [← h.posterior r]
  ring

/-- **One call to `forward`** keeps the belief the posterior. -/
theorem Posterior.observe {f : ExpLn K} {tiny : K} (htiny : 0 ≤ tiny)
    {prior : HiddenMarkovModel K} (nonneg : NonNegative f prior) {o : Observed K}
    (same : SameParameters f prior o.model) (h : Posterior f prior o)
    (obs : ObservationFeatures K) : Posterior f prior (observe f tiny o obs) := by
  have belief := forward_belief f tiny o.model obs
  have ret : (o.model.forward f tiny obs).2 = o.model.totalProb f obs := rfl
  unfold HiddenMarkovModel.observe
  simp only [ret]
  by_cases htotal : o.model.totalProb f obs > tiny
  · have hpos : 0 < o.model.totalProb f obs := lt_of_le_of_lt htiny htotal
    rw [if_pos htotal]
    have updated : ∀ s : Fin prior.numStates, (o.model.forward f tiny obs).1.currentProbs s =
        o.model.newProb f obs s / o.model.totalProb f obs := by
      intro s
      rw [belief, if_pos ⟨htotal, by rw [same.numStates]; exact s.isLt⟩]
    have total : o.model.totalProb f obs = ∑ s : Fin prior.numStates, o.model.newProb f obs s := by
      rw [totalProb, sumFrom_zero_eq, same.numStates, Finset.sum_range]
    refine ⟨fun s => ?_, ?_, mul_pos h.likelihood_pos hpos, ?_, fun s => ?_⟩
    · rw [belief]
      split
      · exact div_nonneg (newProb_nonneg nonneg same h.belief_nonneg obs s) hpos.le
      · exact h.belief_nonneg s
    · simp only [updated]
      rw [← Finset.sum_div, ← total, div_self hpos.ne']
    · show o.likelihood * o.model.totalProb f obs = _
      rw [total, mul_comm, Finset.sum_mul]
      exact Finset.sum_congr rfl fun s _ => newProb_eq same h obs s
    · show (o.model.forward f tiny obs).1.currentProbs s *
        (o.likelihood * o.model.totalProb f obs) = _
      rw [updated, ← newProb_eq same h obs s]
      field_simp
  · rw [if_neg htotal]
    have unchanged : (o.model.forward f tiny obs).1.currentProbs = o.model.currentProbs := by
      funext s
      rw [belief, if_neg fun hs => htotal hs.1]
    exact
      { belief_nonneg := by rw [unchanged]; exact h.belief_nonneg
        belief_sum := by rw [unchanged]; exact h.belief_sum
        likelihood_pos := h.likelihood_pos
        likelihood_eq := h.likelihood_eq
        posterior := by rw [unchanged]; exact h.posterior }

/-- **The belief is the posterior**, after any sequence of observations. -/
theorem forward_posterior (f : ExpLn K) {tiny : K} (htiny : 0 ≤ tiny)
    (prior : HiddenMarkovModel K) (nonneg : NonNegative f prior)
    (belief_nonneg : ∀ s, 0 ≤ prior.currentProbs s)
    (belief_sum : ∑ s : Fin prior.numStates, prior.currentProbs s = 1)
    (observations : List (ObservationFeatures K)) :
    Posterior f prior (observeAll f tiny prior observations) := by
  have run : Posterior f prior (observeAll f tiny prior observations) ∧
      SameParameters f prior (observeAll f tiny prior observations).model := by
    induction observations using List.reverseRecOn with
    | nil =>
        refine ⟨⟨belief_nonneg, belief_sum, one_pos, ?_, fun s => ?_⟩, rfl, rfl, rfl⟩
        · show 1 = ∑ s, prior.keptSum f [] s
          rw [← belief_sum]
          exact Finset.sum_congr rfl fun s _ => (pathSum_zero _ _ _ s).symm
        · show prior.currentProbs s * 1 = prior.keptSum f [] s
          rw [mul_one]
          exact (pathSum_zero _ _ _ s).symm
    | append_singleton os obs ih =>
        obtain ⟨posterior, same⟩ := ih
        rw [observeAll, List.foldl_concat]
        refine ⟨posterior.observe htiny nonneg same obs, ?_⟩
        have kept := forward_same f tiny (observeAll f tiny prior os).model obs
        have model : (HiddenMarkovModel.observe f tiny (observeAll f tiny prior os) obs).model =
            ((observeAll f tiny prior os).model.forward f tiny obs).1 := by
          unfold HiddenMarkovModel.observe
          dsimp only
          split <;> rfl
        rw [observeAll] at model kept same
        rw [model]
        exact ⟨kept.numStates.trans same.numStates, kept.transition.trans same.transition,
          kept.emission.trans same.emission⟩
  exact run.1

/-- and the belief is followed through the same three. -/
theorem forward_posterior_bearAndBull :
    ∃ m : HiddenMarkovModel ℝ, bearAndBull = some m ∧
      Posterior ⟨Real.exp, Real.log⟩ m.reset (observeAll ⟨Real.exp, Real.log⟩ (1 / 10 ^ 300)
        m.reset [returning 1, returning (-1), returning (-1)]) := by
  obtain ⟨m, hm, prepared, states⟩ :=
    prepared_bearAndBull (K := ℝ) (f := ⟨Real.exp, Real.log⟩) fun x => (Real.exp_pos x).le
  have ready := prepared.reset (by omega)
  exact ⟨m, hm, forward_posterior _ (by positivity) m.reset ready.nonNegative ready.belief_nonneg
    ready.belief_sum _⟩

end HiddenMarkovModel

end Field

end StopTrading.Regime
