import Mathlib
import StopTrading.Library.CountedLoop
import StopTrading.Library.Triangular

/-!
# The Cholesky decomposition

`cholesky` works in place on a copy of its argument: row by row it replaces the entries up to
the diagonal and then clears the rest of the row.  It returns early, with the index of the row,
when what is left on the diagonal is not positive or a pivot it would divide by is smaller than
`tiny` (`1e-15` in the source).

Arithmetic is exact: the numbers are an ordered field, and all that is asked of the square root
is that on positive numbers it is one (`IsSqrt`).

* `cholesky_success` — on success the factor is lower triangular with a positive diagonal, its
  product with its transpose is the argument, and the argument is positive definite.
* `cholesky_of_atLeast` — a symmetric matrix none of whose eigenvalues is below `tiny ^ 2` is
  decomposed.

### What is load-bearing

The algorithm overwrites its input, so an invariant has to say of every entry whether it still is
one of the matrix or already one of the factor.  `Factored` is about the rows that are finished,
`EntriesDone` about the row in progress, and both speak of functions of two indices rather than
of matrices: `Triangular` of the library has sums over an initial part of a row, which is what a
partial factor is.

Exactness stands for more than convenience.  Over the reals the decomposition succeeds exactly up
to the tolerance that the source puts on pivots; in floating point it can fail on a matrix that
is positive definite, and its factor is one only up to rounding.

`cholesky_of_atLeast` needs a bound on eigenvalues and gets one on the remainder of a row, from
the quadratic form at the vector that the row eliminates (`remainder_ge`).
-/

namespace StopTrading.Linalg

open CountedLoop Triangular Matrix Finset

universe u

variable {K : Type u} [Field K] [LinearOrder K]

/-- The square root is one on positive numbers. -/
def IsSqrt (sqrt : K → K) : Prop := ∀ x, 0 < x → 0 < sqrt x ∧ sqrt x * sqrt x = x

/-- `CholeskyResult`. -/
structure CholeskyResult (K : Type u) (N : Nat) where
  lower : Matrix (Fin N) (Fin N) K
  success : Bool
  errorIndex : Nat

/-- `Matrix::get`, where it is in range. -/
def load {N : Nat} (matrix : Matrix (Fin N) (Fin N) K) (i j : Nat) : K :=
  if hi : i < N then if hj : j < N then matrix ⟨i, hi⟩ ⟨j, hj⟩ else 0 else 0

/-- The body of the loop over the columns of a row. -/
def entry (sqrt : K → K) (tiny : K) (i j : Nat) (l : Nat → Nat → K) :
    Except Nat (Nat → Nat → K) :=
  if j = i then
    let sum := sumFrom (fun k => l j k * l j k) 0 j
    let diag := l j j - sum
    if diag ≤ 0 then .error i else .ok (setAt l j j (sqrt diag))
  else
    let sum := sumFrom (fun k => l i k * l j k) 0 j
    if |l j j| < tiny then .error i else .ok (setAt l i j ((l i j - sum) / l j j))

/-- The upper triangle of a row is cleared. -/
def clearUpper (N i : Nat) (l : Nat → Nat → K) : Nat → Nat → K :=
  forEach (fun j l => setAt l i j 0) (i + 1) (N - (i + 1)) l

/-- The body of the loop over the rows. -/
def row (sqrt : K → K) (tiny : K) (N i : Nat) (l : Nat → Nat → K) :
    Except Nat (Nat → Nat → K) :=
  (forRange (entry sqrt tiny i) 0 (i + 1) l).map (clearUpper N i)

/-- The rows, one after the other. -/
def factor (sqrt : K → K) (tiny : K) {N : Nat} (matrix : Matrix (Fin N) (Fin N) K) :
    Except Nat (Nat → Nat → K) :=
  forRange (row sqrt tiny N) 0 N (load matrix)

/-- **`cholesky`.** -/
def cholesky (sqrt : K → K) (tiny : K) {N : Nat} (matrix : Matrix (Fin N) (Fin N) K) :
    CholeskyResult K N :=
  match factor sqrt tiny matrix with
  | .ok l => ⟨ofFn N l, true, 0⟩
  | .error i => ⟨0, false, i⟩

/-! ## The working copy -/

/-- Rows before `i` of the working copy are rows of a factor. -/
structure Factored (N : Nat) (A : Nat → Nat → K) (i : Nat) (l : Nat → Nat → K) : Prop where
  /-- the product is the matrix, as far as the rows go -/
  product : ∀ a < i, ∀ b ≤ a, ∑ k ∈ range (b + 1), l a k * l b k = A a b
  /-- the diagonal is positive -/
  diag : ∀ a < i, 0 < l a a
  /-- and above it there is nothing -/
  upper : ∀ a < i, ∀ b < N, a < b → l a b = 0

/-- The working copy before row `i`. -/
structure RowsDone (N : Nat) (A : Nat → Nat → K) (i : Nat) (l : Nat → Nat → K) : Prop
    extends Factored N A i l where
  rest : ∀ a, i ≤ a → l a = A a

/-- The working copy in row `i`, before column `j`. -/
structure EntriesDone (N : Nat) (A : Nat → Nat → K) (i j : Nat) (l : Nat → Nat → K) : Prop
    extends Factored N A i l where
  entries : ∀ b < j, ∑ k ∈ range (b + 1), l i k * l b k = A i b
  pivot : i < j → 0 < l i i
  later : ∀ b, j ≤ b → l i b = A i b
  rest : ∀ a, i < a → l a = A a

variable {N i j : Nat} {A l l' : Nat → Nat → K} {sqrt : K → K} {tiny : K}

/-- A row begins where the rows before it end. -/
theorem RowsDone.entriesDone (h : RowsDone N A i l) : EntriesDone N A i 0 l where
  toFactored := h.toFactored
  entries b hb := absurd hb (Nat.not_lt_zero b)
  pivot hi := absurd hi (Nat.not_lt_zero i)
  later b _ := by rw [h.rest i le_rfl]
  rest a ha := h.rest a (Nat.le_of_lt ha)

/-- Storing in row `i` leaves the factored rows alone. -/
theorem Factored.setAt (h : Factored N A i l) (j : Nat) (v : K) :
    Factored N A i (setAt l i j v) where
  product a ha b hb := by
    rw [setAt_row_ne l j v (show a ≠ i by omega), setAt_row_ne l j v (show b ≠ i by omega)]
    exact h.product a ha b hb
  diag a ha := by
    rw [setAt_row_ne l j v (show a ≠ i by omega)]
    exact h.diag a ha
  upper a ha b hb hab := by
    rw [setAt_row_ne l j v (show a ≠ i by omega)]
    exact h.upper a ha b hb hab

/-- **Storing the entry that completes a product** completes it. -/
theorem EntriesDone.setAt (h : EntriesDone N A i j l) (hj : j ≤ i) {v : K}
    (positive : j = i → 0 < v)
    (complete : ∑ k ∈ range j, l i k * l j k + v * (if j = i then v else l j j) = A i j) :
    EntriesDone N A i (j + 1) (setAt l i j v) where
  toFactored := h.toFactored.setAt j v
  entries b hb := by
    have rowsBefore : ∀ k < j, CountedLoop.setAt l i j v i k = l i k := fun k hk =>
      setAt_col_ne l i i v (by omega)
    have rowsBefore' : ∀ b ≤ j, ∀ k < j, CountedLoop.setAt l i j v b k = l b k :=
      fun b _ k hk => setAt_col_ne l i b v (by omega)
    rcases Nat.lt_or_ge b j with hlt | hge
    · rw [← h.entries b hlt]
      refine sum_congr rfl fun k hk => ?_
      rw [mem_range] at hk
      rw [rowsBefore k (by omega), rowsBefore' b (by omega) k (by omega)]
    · obtain rfl : b = j := by omega
      rw [sum_range_succ, ← complete]
      congr 1
      · refine sum_congr rfl fun k hk => ?_
        rw [mem_range] at hk
        rw [rowsBefore k hk, rowsBefore' b le_rfl k hk]
      · split
        · rename_i hbi
          subst hbi
          rw [setAt_self]
        · rename_i hbi
          rw [setAt_self, setAt_row_ne l b v hbi]
  pivot hi := by
    obtain rfl : j = i := by omega
    rw [setAt_self]
    exact positive rfl
  later b hb := by
    rw [setAt_col_ne l i i v (by omega)]
    exact h.later b (by omega)
  rest a ha := by
    rw [setAt_row_ne l j v (by omega)]
    exact h.rest a ha

/-- What is left on the diagonal when its column is reached. -/
def remainder (l : Nat → Nat → K) (i : Nat) : K := l i i - ∑ k ∈ range i, l i k * l i k

/-- **What one entry does**: it returns early for a remainder that is not positive or a pivot
that is tiny, and otherwise completes a product. -/
theorem entry_spec (tiny : K) (hsqrt : IsSqrt sqrt) (h : EntriesDone N A i j l) (hj : j ≤ i) :
    (∃ l', entry sqrt tiny i j l = .ok l' ∧ EntriesDone N A i (j + 1) l' ∧
      (∀ a, a ≠ i → l' a = l a) ∧
      (j = i → 0 < remainder l i ∧ l' i i = sqrt (remainder l i))) ∨
    (entry sqrt tiny i j l = .error i ∧
      ((j = i ∧ remainder l i ≤ 0) ∨ (j < i ∧ |l j j| < tiny))) := by
  unfold entry
  split
  · rename_i hji
    subst hji
    simp only [sumFrom_zero_eq]
    split
    · rename_i hdiag
      exact Or.inr ⟨rfl, Or.inl ⟨trivial, hdiag⟩⟩
    · rename_i hdiag
      obtain ⟨hpos, hmul⟩ := hsqrt _ (not_le.mp hdiag)
      refine Or.inl ⟨_, rfl, h.setAt le_rfl (fun _ => hpos) ?_,
        fun a ha => setAt_row_ne l j _ ha, fun _ => ⟨not_le.mp hdiag, setAt_self l j j _⟩⟩
      rw [if_pos rfl, hmul, add_sub_cancel, h.later j le_rfl]
  · rename_i hji
    simp only [sumFrom_zero_eq]
    have hpivot := h.diag j (by omega)
    split
    · rename_i htiny
      exact Or.inr ⟨rfl, Or.inr ⟨by omega, htiny⟩⟩
    · refine Or.inl ⟨_, rfl, h.setAt hj (fun heq => absurd heq hji) ?_,
        fun a ha => setAt_row_ne l j _ ha, fun heq => absurd heq hji⟩
      rw [if_neg hji, div_mul_cancel₀ _ hpivot.ne', add_sub_cancel, h.later j le_rfl]

/-- Clearing the rest of a row changes nothing else. -/
theorem clearUpper_spec (N i : Nat) (l : Nat → Nat → K) :
    (∀ a, a ≠ i → clearUpper N i l a = l a) ∧ (∀ b ≤ i, clearUpper N i l i b = l i b) ∧
      ∀ b, i < b → b < i + 1 + (N - (i + 1)) → clearUpper N i l i b = 0 := by
  -- the columns before `c` are cleared
  refine forEach_invariant (fun (c : Nat) (m : Nat → Nat → K) => (∀ a, a ≠ i → m a = l a) ∧
    (∀ b ≤ i, m i b = l i b) ∧ ∀ b, i < b → b < c → m i b = 0) ?_ ?_
  · rintro c m hc - ⟨rows, kept, zero⟩
    refine ⟨fun a ha => ?_, fun b hb => ?_, fun b hb hbc => ?_⟩
    · rw [setAt_row_ne m c 0 ha, rows a ha]
    · rw [setAt_col_ne m i i 0 (by omega), kept b hb]
    · by_cases hbc' : b = c
      · rw [hbc', setAt_self]
      · rw [setAt_col_ne m i i 0 hbc', zero b hb (by omega)]
  · exact ⟨fun _ _ => rfl, fun _ _ => rfl, fun b hb hbc => by omega⟩

/-- Clearing the rest of a complete row gives one more row of the factor. -/
theorem EntriesDone.cleared (h : EntriesDone N A i (i + 1) l) (hi : i < N) :
    RowsDone N A (i + 1) (clearUpper N i l) := by
  obtain ⟨rows, kept, zero⟩ := clearUpper_spec N i l
  have same : ∀ a ≤ i, ∀ b ≤ a, clearUpper N i l a b = l a b := by
    intro a ha b hb
    by_cases hai : a = i
    · rw [hai, kept b (by omega)]
    · rw [rows a hai]
  refine ⟨⟨fun a ha b hb => ?_, fun a ha => ?_, fun a ha b hbN hab => ?_⟩, fun a ha => ?_⟩
  · have hsum : ∑ k ∈ range (b + 1), l a k * l b k = A a b := by
      by_cases hai : a = i
      · rw [hai]
        exact h.entries b (by omega)
      · exact h.product a (by omega) b hb
    rw [← hsum]
    refine sum_congr rfl fun k hk => ?_
    rw [mem_range] at hk
    rw [same a (by omega) k (by omega), same b (by omega) k (by omega)]
  · rw [same a (by omega) a le_rfl]
    by_cases hai : a = i
    · rw [hai]
      exact h.pivot (Nat.lt_succ_self i)
    · exact h.diag a (by omega)
  · by_cases hai : a = i
    · rw [hai]
      exact zero b (by omega) (by omega)
    · rw [rows a hai]
      exact h.upper a (by omega) b hbN hab
  · rw [rows a (by omega)]
    exact h.rest a (by omega)

/-- **A row that is finished** adds a row to the factor. -/
theorem row_ok (hsqrt : IsSqrt sqrt) (hi : i < N) (h : RowsDone N A i l)
    (hrow : row sqrt tiny N i l = .ok l') : RowsDone N A (i + 1) l' := by
  unfold row at hrow
  cases hloop : forRange (entry sqrt tiny i) 0 (i + 1) l with
  | error e => rw [hloop] at hrow; cases hrow
  | ok m =>
      rw [hloop] at hrow
      cases hrow
      have done : EntriesDone N A i (0 + (i + 1)) m := by
        refine forRange_ok (fun j s s' _ hj hs hentry => ?_) h.entriesDone hloop
        obtain ⟨t, ht, hdone, -⟩ | ⟨herr, -⟩ :=
          entry_spec tiny hsqrt hs (show j ≤ i by omega)
        · obtain rfl : t = s' := Except.ok.inj (ht.symm.trans hentry)
          exact hdone
        · rw [herr] at hentry
          cases hentry
      rw [Nat.zero_add] at done
      exact done.cleared hi

/-- At first no row is done. -/
theorem rowsDone_load {N : Nat} (matrix : Matrix (Fin N) (Fin N) K) :
    RowsDone N (load matrix) 0 (load matrix) where
  product a ha := absurd ha (Nat.not_lt_zero a)
  diag a ha := absurd ha (Nat.not_lt_zero a)
  upper a ha := absurd ha (Nat.not_lt_zero a)
  rest _ _ := rfl

omit [LinearOrder K] in
/-- A matrix is loaded as it is. -/
@[simp] theorem ofFn_load {N : Nat} (matrix : Matrix (Fin N) (Fin N) K) :
    ofFn N (load matrix) = matrix := by
  ext i j
  simp [load]

omit [LinearOrder K] in
/-- The families that `load` makes of symmetric matrices. -/
theorem load_symm {matrix : Matrix (Fin N) (Fin N) K} (symm : matrix.IsSymm) {a b : Nat}
    (ha : a < N) (hb : b < N) : load matrix a b = load matrix b a := by
  simp [load, ha, hb, symm.apply ⟨a, ha⟩ ⟨b, hb⟩]

/-- What the loops leave behind when they run to the end. -/
theorem factor_ok (hsqrt : IsSqrt sqrt) {matrix : Matrix (Fin N) (Fin N) K}
    (h : factor sqrt tiny matrix = .ok l) : Factored N (load matrix) N l := by
  have done : RowsDone N (load matrix) (0 + N) l :=
    forRange_ok (fun i s s' _ hi hs hrow => row_ok hsqrt (by omega) hs hrow)
      (rowsDone_load matrix) h
  rw [Nat.zero_add] at done
  exact done.toFactored

/-- The factor is lower triangular, -/
theorem Factored.lower (h : Factored N A N l) : Lower N l := fun a ha b hb hab =>
  h.upper a ha b hb hab

variable [IsStrictOrderedRing K]

/-- with a determinant that is not zero. -/
theorem Factored.det_ne_zero (h : Factored N A N l) : (ofFn N l).det ≠ 0 := by
  rw [det_lower h.lower]
  exact prod_ne_zero_iff.mpr fun a _ => (h.diag a a.isLt).ne'

/-! ## Matrices without small eigenvalues -/

/-- **The remainder is at least the lower bound of the form.** -/
theorem EntriesDone.remainder_ge (h : EntriesDone N A i i l) (hi : i < N)
    (symm : ∀ a < N, ∀ b < N, A a b = A b a) {c : K} (hc : 0 ≤ c)
    (bound : AtLeast c (ofFn N A)) : c ≤ remainder l i := by
  have lower : Lower i l := fun a ha b hb hab => h.upper a ha b (by omega) hab
  refine pivot_of_atLeast hi hc bound lower (fun a ha => (h.diag a ha).ne') ?_
  have below : ∀ a ≤ i, ∀ b ≤ a,
      A a b = ∑ k ∈ range i, l a k * l b k + if a = i ∧ b = i then remainder l i else 0 := by
    intro a ha b hb
    rcases Nat.lt_or_ge b i with hbi | hbi
    · rw [if_neg (by omega), add_zero]
      have hrow := sum_row_lower lower hbi (l a)
      simp only [mul_comm (l b _)] at hrow
      rw [hrow]
      by_cases hai : a = i
      · rw [hai]
        exact (h.entries b hbi).symm
      · exact (h.product a (by omega) b hb).symm
    · obtain rfl : b = i := by omega
      obtain rfl : a = b := by omega
      rw [if_pos ⟨rfl, rfl⟩, remainder, add_sub_cancel, h.later a le_rfl]
  intro a ha b hb
  rcases le_total b a with hab | hab
  · exact below a (by omega) b hab
  · rw [symm a (by omega) b (by omega), below b (by omega) a hab]
    simp only [mul_comm (l b _), and_comm]

/-- A root of at least `tiny ^ 2` is at least `tiny`. -/
theorem IsSqrt.ge (hsqrt : IsSqrt sqrt) {x : K} (hx : 0 < x)
    (h : tiny * tiny ≤ x) : tiny ≤ sqrt x := by
  obtain ⟨hpos, hmul⟩ := hsqrt x hx
  by_contra hlt
  rw [not_le] at hlt
  have := mul_lt_mul'' hlt hlt hpos.le hpos.le
  rw [hmul] at this
  exact absurd h (not_le.mpr this)

/-- **A row of a matrix without small eigenvalues** is finished, and its pivot is not tiny. -/
theorem row_total (hsqrt : IsSqrt sqrt) (htiny : 0 < tiny) (hi : i < N)
    (symm : ∀ a < N, ∀ b < N, A a b = A b a) (bound : AtLeast (tiny * tiny) (ofFn N A))
    (h : RowsDone N A i l) (pivots : ∀ a < i, tiny ≤ l a a) :
    ∃ l', row sqrt tiny N i l = .ok l' ∧ RowsDone N A (i + 1) l' ∧
      ∀ a < i + 1, tiny ≤ l' a a := by
  have body : ∀ j s, 0 ≤ j → j < 0 + (i + 1) →
      (EntriesDone N A i j s ∧ ∀ a < i, tiny ≤ s a a) ∧ (i < j → tiny ≤ s i i) →
      ∃ s', entry sqrt tiny i j s = .ok s' ∧
        (EntriesDone N A i (j + 1) s' ∧ ∀ a < i, tiny ≤ s' a a) ∧ (i < j + 1 → tiny ≤ s' i i) := by
    rintro j s - hj ⟨⟨done, piv⟩, -⟩
    obtain ⟨s', hs', hdone, hrows, hlast⟩ | ⟨-, ⟨rfl, hneg⟩ | ⟨hji, hsmall⟩⟩ :=
      entry_spec tiny hsqrt done (show j ≤ i by omega)
    · refine ⟨s', hs', ⟨hdone, fun a ha => ?_⟩, fun hlt => ?_⟩
      · rw [hrows a (by omega)]
        exact piv a ha
      · obtain rfl : j = i := by omega
        obtain ⟨hpos, heq⟩ := hlast rfl
        rw [heq]
        exact hsqrt.ge hpos
          (done.remainder_ge hi symm (mul_pos htiny htiny).le bound)
    · have := done.remainder_ge hi symm (mul_pos htiny htiny).le bound
      exact absurd (lt_of_lt_of_le (mul_pos htiny htiny) this) (not_lt.mpr hneg)
    · exact absurd ((piv j hji).trans (le_abs_self _)) (not_le.mpr hsmall)
  obtain ⟨m, hm, ⟨done, piv⟩, last⟩ :=
    forRange_total _ body ⟨⟨h.entriesDone, pivots⟩, fun h => absurd h (Nat.not_lt_zero i)⟩
  rw [Nat.zero_add] at done last
  obtain ⟨rows, kept, -⟩ := clearUpper_spec N i m
  refine ⟨clearUpper N i m, by rw [row, hm]; rfl, done.cleared hi, fun a ha => ?_⟩
  by_cases hai : a = i
  · rw [hai, kept i le_rfl]
    exact last (Nat.lt_succ_self i)
  · rw [rows a hai]
    exact piv a (by omega)

/-- A matrix without small eigenvalues is factored, and no pivot is tiny. -/
theorem factor_of_atLeast (hsqrt : IsSqrt sqrt) (htiny : 0 < tiny)
    {matrix : Matrix (Fin N) (Fin N) K} (symm : matrix.IsSymm)
    (bound : AtLeast (tiny * tiny) matrix) :
    ∃ l, factor sqrt tiny matrix = .ok l ∧ ∀ a < N, tiny ≤ l a a := by
  have bound' : AtLeast (tiny * tiny) (ofFn N (load matrix)) := by rwa [ofFn_load]
  obtain ⟨l, hl, -, pivots⟩ : ∃ l, forRange (row sqrt tiny N) 0 N (load matrix) = .ok l ∧
      RowsDone N (load matrix) (0 + N) l ∧ ∀ a < 0 + N, tiny ≤ l a a :=
    forRange_total (fun i l => RowsDone N (load matrix) i l ∧ ∀ a < i, tiny ≤ l a a)
      (fun i s _ hi hs => row_total hsqrt htiny (by omega)
        (fun a ha b hb => load_symm symm ha hb) bound' hs.1 hs.2)
      ⟨rowsDone_load matrix, fun a ha => absurd ha (Nat.not_lt_zero a)⟩
  rw [Nat.zero_add] at pivots
  exact ⟨l, hl, pivots⟩

/-! ## The results -/

/-- The square root of the reals is one. -/
theorem isSqrt_sqrt : IsSqrt Real.sqrt := fun _ hx =>
  ⟨Real.sqrt_pos.mpr hx, Real.mul_self_sqrt hx.le⟩

/-- Two assets of variance two and covariance one: the smaller eigenvalue is one. -/
theorem atLeast_pair : AtLeast 1 (!![2, 1; 1, 2] : Matrix (Fin 2) (Fin 2) ℝ) := by
  intro x
  simp only [dotProduct, mulVec, Fin.sum_univ_two, of_apply, cons_val_zero, cons_val_one]
  nlinarith [mul_self_nonneg (x 0 + x 1)]

/-- It is symmetric. -/
theorem isSymm_pair : (!![2, 1; 1, 2] : Matrix (Fin 2) (Fin 2) ℝ).IsSymm := by
  ext i j
  fin_cases i <;> fin_cases j <;> rfl

/-- **A successful decomposition**: the factor is lower triangular with a positive diagonal, it is
a factor of a symmetric argument, and such an argument is positive definite. -/
theorem cholesky_success (hsqrt : IsSqrt sqrt) (tiny : K) {N : Nat}
    (matrix : Matrix (Fin N) (Fin N) K) (symm : matrix.IsSymm)
    (success : (cholesky sqrt tiny matrix).success = true) :
    (∀ a b, a < b → (cholesky sqrt tiny matrix).lower a b = 0) ∧
    (∀ a, 0 < (cholesky sqrt tiny matrix).lower a a) ∧
    (cholesky sqrt tiny matrix).lower * (cholesky sqrt tiny matrix).lowerᵀ = matrix ∧
    PositiveDefinite matrix := by
  unfold cholesky at success ⊢
  cases hfactor : factor sqrt tiny matrix with
  | error i => rw [hfactor] at success; cases success
  | ok l =>
      have done := factor_ok hsqrt hfactor
      have product : ofFn N l * (ofFn N l)ᵀ = matrix := by
        rw [mul_transpose_eq done.lower (fun a ha b hb => load_symm symm ha hb) done.product,
          ofFn_load]
      refine ⟨fun a b hab => done.lower a a.isLt b b.isLt hab, fun a => done.diag a a.isLt,
        product, ?_⟩
      rw [← product]
      exact positiveDefinite_of_factor done.det_ne_zero

/-- Such a matrix is decomposed, and its factor is one. -/
theorem cholesky_success_pair :
    let A : Matrix (Fin 2) (Fin 2) ℝ := !![2, 1; 1, 2]
    let L := (cholesky Real.sqrt (1 / 10 ^ 15) A).lower
    L * Lᵀ = A ∧ PositiveDefinite A := by
  obtain ⟨l, hl, -⟩ := factor_of_atLeast isSqrt_sqrt
    (show (0 : ℝ) < 1 / 10 ^ 15 by norm_num) isSymm_pair (atLeast_pair.mono (by norm_num))
  have success : (cholesky Real.sqrt (1 / 10 ^ 15)
      (!![2, 1; 1, 2] : Matrix (Fin 2) (Fin 2) ℝ)).success = true := by
    unfold cholesky
    rw [hl]
  exact (cholesky_success isSqrt_sqrt _ _ isSymm_pair success).2.2

/-- **A symmetric matrix none of whose eigenvalues is below `tiny ^ 2` is decomposed.** -/
theorem cholesky_of_atLeast (hsqrt : IsSqrt sqrt) (htiny : 0 < tiny) {N : Nat}
    (matrix : Matrix (Fin N) (Fin N) K) (symm : matrix.IsSymm)
    (bound : AtLeast (tiny * tiny) matrix) : (cholesky sqrt tiny matrix).success = true := by
  obtain ⟨l, hl, -⟩ := factor_of_atLeast hsqrt htiny symm bound
  unfold cholesky
  rw [hl]

/-- The decomposition of the source's tolerance succeeds. -/
theorem cholesky_of_atLeast_pair :
    (cholesky Real.sqrt (1 / 10 ^ 15) (!![2, 1; 1, 2] : Matrix (Fin 2) (Fin 2) ℝ)).success =
      true :=
  cholesky_of_atLeast isSqrt_sqrt (by norm_num) _ isSymm_pair
    (atLeast_pair.mono (by norm_num))

end StopTrading.Linalg
