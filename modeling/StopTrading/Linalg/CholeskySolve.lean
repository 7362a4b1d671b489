import StopTrading.Linalg.Cholesky

/-!
# Solving and inverting with the Cholesky factor

`solve_cholesky` decomposes and substitutes forwards and backwards, `inverse_cholesky` inverts
the factor column by column, `log_determinant_cholesky` adds up logarithms, and
`make_positive_definite` adds to the diagonal, twice as much each time, until the decomposition
succeeds.

* `solveCholesky_correct`, `inverseCholesky_correct` — what is returned solves the system, and is
  the inverse.
* `solveCholesky_total`, `inverseCholesky_total` — and something is returned for every symmetric
  matrix without an eigenvalue below `tiny ^ 2`.
* `logDeterminant_correct` — the result is the logarithm of the determinant.
* `generateCorrelatedSamples_moments` — samples drawn with the factor have the moments of the
  matrix.
* `makePositiveDefinite_correct`, `makePositiveDefinite_total` — what is returned is positive
  definite and differs from the argument by a multiple of the unit matrix, and given enough
  iterations every symmetric matrix leads to a result.

### What is load-bearing

Everything here takes the factor of `Linalg.Cholesky` and uses three facts about it: it is lower
triangular, no diagonal entry is zero, and it is a factor of the argument.  The substitutions are
then about any such triangle, and `substitute_ok` says that they solve *if they return*.  They
return early at a tiny pivot, so every result comes in two parts, what is returned and when
something is.

The inverse of the factor is built column by column in a matrix of zeros.  Its invariant,
`RowsOfColumn`, says of each entry whether it is done, is yet zero, or is never touched: at the
end the product of the inverse with its transpose takes all of them, those above the diagonal too.

`make_positive_definite` adds to the diagonal cumulatively, twice as much each time.  What has
been added in all does not matter for correctness; that it grows without bound is why, in an
archimedean field, enough iterations always lead to a result.
-/

namespace StopTrading.Linalg

open CountedLoop Triangular Matrix Finset

universe u

variable {K : Type u} [Field K] [LinearOrder K]

/-! ## The factor of a success -/

omit [LinearOrder K] in
/-- A matrix made from a family is read back from it. -/
theorem load_ofFn {N : Nat} (l : Nat → Nat → K) {a b : Nat} (ha : a < N) (hb : b < N) :
    load (ofFn N l) a b = l a b := by
  simp [load, ha, hb]

/-- The factor read back from a result. -/
theorem factored_lower {sqrt : K → K} (hsqrt : IsSqrt sqrt) {tiny : K} {N : Nat}
    {matrix : Matrix (Fin N) (Fin N) K} (success : (cholesky sqrt tiny matrix).success = true) :
    Factored N (load matrix) N (load (cholesky sqrt tiny matrix).lower) := by
  unfold cholesky at success ⊢
  cases hfactor : factor sqrt tiny matrix with
  | error i => rw [hfactor] at success; cases success
  | ok l =>
      have done := factor_ok hsqrt hfactor
      refine ⟨fun a ha b hb => ?_, fun a ha => ?_, fun a ha b hbN hab => ?_⟩
      · rw [← done.product a ha b hb]
        refine sum_congr rfl fun k hk => ?_
        rw [mem_range] at hk
        rw [load_ofFn l ha (by omega), load_ofFn l (by omega) (by omega)]
      · rw [load_ofFn l ha ha]
        exact done.diag a ha
      · rw [load_ofFn l ha hbN]
        exact done.upper a ha b hbN hab

/-- The factor's product is a symmetric argument. -/
theorem Factored.mul_transpose {N : Nat} {matrix : Matrix (Fin N) (Fin N) K}
    {l : Nat → Nat → K} (h : Factored N (load matrix) N l) (symm : matrix.IsSymm) :
    ofFn N l * (ofFn N l)ᵀ = matrix := by
  rw [mul_transpose_eq h.lower (fun a ha b hb => load_symm symm ha hb) h.product, ofFn_load]

/-! ## Solving -/

/-- The body of the forward substitution. -/
def forwardBody (tiny : K) (l : Nat → Nat → K) (b : Nat → K) (i : Nat) (y : Nat → K) :
    Except Unit (Nat → K) :=
  let sum := sumFrom (fun j => l i j * y j) 0 i
  if |l i i| < tiny then .error () else .ok (Function.update y i ((b i - sum) / l i i))

/-- The body of the backward substitution, in its iteration `m`. -/
def backwardBody (tiny : K) (N : Nat) (l : Nat → Nat → K) (y : Nat → K) (m : Nat) (x : Nat → K) :
    Except Unit (Nat → K) :=
  let i := N - 1 - m
  let sum := sumFrom (fun j => l j i * x j) (i + 1) (N - (i + 1))
  if |l i i| < tiny then .error () else .ok (Function.update x i ((y i - sum) / l i i))

/-- Both substitutions. -/
def substitute (tiny : K) (N : Nat) (l : Nat → Nat → K) (b : Nat → K) : Except Unit (Nat → K) :=
  (forRange (forwardBody tiny l b) 0 N fun _ => 0).bind fun y =>
    forRange (backwardBody tiny N l y) 0 N fun _ => 0

/-- The entries of a vector. -/
def loadVec {N : Nat} (b : Fin N → K) (i : Nat) : K := if h : i < N then b ⟨i, h⟩ else 0

/-- **`solve_cholesky`.** -/
def solveCholesky (sqrt : K → K) (tiny : K) {N : Nat} (matrix : Matrix (Fin N) (Fin N) K)
    (b : Fin N → K) : Option (Fin N → K) :=
  let chol := cholesky sqrt tiny matrix
  if chol.success = false then none
  else ((substitute tiny N (load chol.lower) (loadVec b)).toOption).map fun x i => x i

variable {N : Nat} {l : Nat → Nat → K} {tiny : K}

/-- Rows before `i` of the lower triangular system are solved. -/
def ForwardDone (l : Nat → Nat → K) (b : Nat → K) (i : Nat) (y : Nat → K) : Prop :=
  ∀ a < i, ∑ j ∈ range (a + 1), l a j * y j = b a

/-- The last `m` rows of the upper triangular system are solved. -/
def BackwardDone (N : Nat) (l : Nat → Nat → K) (y : Nat → K) (m : Nat) (x : Nat → K) : Prop :=
  ∀ a, N - m ≤ a → a < N → ∑ j ∈ Ico a N, l j a * x j = y a

/-- One row of the forward substitution, -/
theorem forwardBody_ok {b y y' : Nat → K} {i : Nat} (diag : l i i ≠ 0)
    (h : ForwardDone l b i y) (hbody : forwardBody tiny l b i y = .ok y') :
    ForwardDone l b (i + 1) y' := by
  unfold forwardBody at hbody
  simp only [sumFrom_zero_eq] at hbody
  split at hbody
  · cases hbody
  · cases hbody
    have away : ∀ (a : Nat) (v : K), a ≤ i → ∑ j ∈ range a, l i j * Function.update y i v j =
        ∑ j ∈ range a, l i j * y j := by
      intro a v ha
      refine sum_congr rfl fun j hj => ?_
      rw [Function.update_of_ne (by have := mem_range.mp hj; omega)]
    intro a ha
    rcases Nat.lt_or_ge a i with hai | hai
    · rw [← h a hai]
      refine sum_congr rfl fun j hj => ?_
      rw [Function.update_of_ne (by have := mem_range.mp hj; omega)]
    · obtain rfl : a = i := by omega
      rw [sum_range_succ, away a _ le_rfl, Function.update_self, mul_div_cancel₀ _ diag,
        add_sub_cancel]

/-- and one of the backward substitution, from the end. -/
theorem backwardBody_ok {x x' y : Nat → K} {m : Nat} (hm : m < N)
    (diag : ∀ a < N, l a a ≠ 0) (h : BackwardDone N l y m x)
    (hbody : backwardBody tiny N l y m x = .ok x') : BackwardDone N l y (m + 1) x' := by
  unfold backwardBody at hbody
  obtain ⟨i, hi⟩ : ∃ i, i = N - 1 - m := ⟨_, rfl⟩
  rw [← hi] at hbody
  simp only [sumFrom_eq] at hbody
  split at hbody
  · cases hbody
  · cases hbody
    have later : ∀ (a : Nat) (v : K), i < a →
        ∑ j ∈ Ico a N, l j i * Function.update x i v j = ∑ j ∈ Ico a N, l j i * x j := by
      intro a v ha
      refine sum_congr rfl fun j hj => ?_
      rw [Function.update_of_ne (by have := mem_Ico.mp hj; omega)]
    intro a hma ha
    rcases Nat.lt_or_ge i a with hia | hia
    · rw [← h a (by omega) ha]
      refine sum_congr rfl fun j hj => ?_
      rw [Function.update_of_ne (by have := mem_Ico.mp hj; omega)]
    · obtain rfl : a = i := by omega
      rw [sum_eq_sum_Ico_succ_bot ha, later (a + 1) _ (Nat.lt_succ_self a), Function.update_self,
        show a + 1 + (N - (a + 1)) = N by omega, mul_div_cancel₀ _ (diag a ha), sub_add_cancel]

/-- **Both substitutions solve** the system of the factor and its transpose. -/
theorem substitute_ok {b x : Nat → K} (lower : Lower N l) (diag : ∀ a < N, l a a ≠ 0)
    (h : substitute tiny N l b = .ok x) :
    (ofFn N l * (ofFn N l)ᵀ) *ᵥ (fun i => x i) = fun i : Fin N => b i := by
  unfold substitute at h
  cases hforward : forRange (forwardBody tiny l b) 0 N fun _ => 0 with
  | error e => rw [hforward] at h; cases h
  | ok y =>
      rw [hforward] at h
      have forward : ForwardDone l b (0 + N) y :=
        forRange_ok (fun i s s' _ hi hs hbody => forwardBody_ok (diag i (by omega)) hs hbody)
          (fun a ha => absurd ha (Nat.not_lt_zero a)) hforward
      have backward : BackwardDone N l y (0 + N) x :=
        forRange_ok (fun m s s' _ hm hs hbody => backwardBody_ok (by omega) diag hs hbody)
          (fun a ha ha' => by omega) h
      rw [← mulVec_mulVec]
      have hy : (ofFn N l)ᵀ *ᵥ (fun i => x i) = fun i : Fin N => y i := by
        funext i
        rw [transpose_mulVec_apply_lower lower]
        exact backward i (by omega) i.isLt
      rw [hy]
      funext i
      rw [mulVec_apply_lower lower]
      exact forward i (by omega)

/-- A pivot that is not tiny passes its test. -/
theorem not_tiny {p : K} (h : tiny ≤ p) : ¬ |p| < tiny := not_lt.mpr (h.trans (le_abs_self p))

/-- Where no pivot is tiny the substitutions run to the end. -/
theorem substitute_total (pivots : ∀ a < N, tiny ≤ l a a) (b : Nat → K) :
    ∃ x, substitute tiny N l b = .ok x := by
  obtain ⟨y, hy, -⟩ : ∃ y, forRange (forwardBody tiny l b) 0 N (fun _ => 0) = .ok y ∧ True :=
    forRange_total (fun _ _ => True)
      (fun i s _ hi _ => ⟨_, if_neg (not_tiny (pivots i (by omega))), trivial⟩) trivial
  obtain ⟨x, hx, -⟩ : ∃ x, forRange (backwardBody tiny N l y) 0 N (fun _ => 0) = .ok x ∧ True :=
    forRange_total (fun _ _ => True)
      (fun m s _ hm _ => ⟨_, if_neg (not_tiny (pivots (N - 1 - m) (by omega))), trivial⟩) trivial
  refine ⟨x, ?_⟩
  unfold substitute
  rw [hy]
  exact hx

omit [LinearOrder K] in
/-- A vector is read as it is. -/
theorem loadVec_val (b : Fin N → K) : (fun i : Fin N => loadVec b i) = b := by
  funext i
  simp [loadVec]

/-! ## Inverting -/

/-- The body of the loop over the rows of a column of the inverse factor. -/
def invEntry (tiny : K) (l : Nat → Nat → K) (col row : Nat) (m : Nat → Nat → K) :
    Except Unit (Nat → Nat → K) :=
  let sum := sumFrom (fun k => l row k * m k col) col (row - col)
  let diag := l row row
  if row = col then
    if |diag| < tiny then .error () else .ok (setAt m row col (1 / diag))
  else if |diag| < tiny then .error ()
  else .ok (setAt m row col (-sum / diag))

/-- The inverse of the factor, column by column. -/
def invertFactor (tiny : K) (N : Nat) (l : Nat → Nat → K) : Except Unit (Nat → Nat → K) :=
  forRange (fun col m => forRange (invEntry tiny l col) col (N - col) m) 0 N fun _ _ => 0

/-- The product of two columns, stored on both sides of the diagonal. -/
def gramEntry (N : Nat) (m : Nat → Nat → K) (i j : Nat) (inv : Nat → Nat → K) : Nat → Nat → K :=
  let sum := sumFrom (fun k => m k i * m k j) 0 N
  setAt (setAt inv i j sum) j i sum

/-- The product of the transposed inverse with the inverse, two entries at a time. -/
def gram (N : Nat) (m : Nat → Nat → K) : Nat → Nat → K :=
  forEach (fun i inv => forEach (gramEntry N m i) i (N - i) inv) 0 N fun _ _ => 0

/-- **`inverse_cholesky`.** -/
def inverseCholesky (sqrt : K → K) (tiny : K) {N : Nat} (matrix : Matrix (Fin N) (Fin N) K) :
    Option (Matrix (Fin N) (Fin N) K) :=
  let chol := cholesky sqrt tiny matrix
  if chol.success = false then none
  else ((invertFactor tiny N (load chol.lower)).toOption).map fun m => ofFn N (gram N m)

/-- Column `c` of `m` is that column of the inverse of `l`, in the rows before `r`. -/
def ColumnDone (l : Nat → Nat → K) (c r : Nat) (m : Nat → Nat → K) : Prop :=
  ∀ a < r, ∑ k ∈ range (a + 1), l a k * m k c = if a = c then 1 else 0

/-- The columns before `c` are done, the others are untouched. -/
structure ColumnsDone (N : Nat) (l : Nat → Nat → K) (c : Nat) (m : Nat → Nat → K) : Prop where
  /-- the columns before are columns of the inverse -/
  done : ∀ b < c, ColumnDone l b N m
  /-- and the others are zero -/
  rest : ∀ b, c ≤ b → ∀ a, m a b = 0

/-- Column `c` is done in the rows before `r`. -/
structure RowsOfColumn (N : Nat) (l : Nat → Nat → K) (c r : Nat) (m : Nat → Nat → K) : Prop where
  /-- the columns before are done -/
  before : ∀ b < c, ColumnDone l b N m
  /-- and this one as far as its rows go -/
  column : ColumnDone l c r m
  /-- above the diagonal it is zero -/
  above : ∀ a < c, m a c = 0
  /-- as it is below, so far -/
  below : ∀ a, r ≤ a → m a c = 0
  /-- and the others are untouched -/
  rest : ∀ b, c < b → ∀ a, m a b = 0

omit [LinearOrder K] in
/-- Writing elsewhere leaves a column done. -/
theorem ColumnDone.setAt {c r i j : Nat} {m : Nat → Nat → K} (h : ColumnDone l c r m) (v : K)
    (away : c ≠ j ∨ r ≤ i) : ColumnDone l c r (setAt m i j v) := by
  intro a ha
  rw [← h a ha]
  refine sum_congr rfl fun k hk => ?_
  rw [mem_range] at hk
  rcases away with hc | hr
  · rw [setAt_col_ne m i k v hc]
  · rw [setAt_row_ne m j v (show k ≠ i by omega)]

omit [LinearOrder K] in
/-- **Storing the entry that completes a row of the column** completes it. -/
theorem RowsOfColumn.setAt {c r : Nat} {m : Nat → Nat → K} (h : RowsOfColumn N l c r m)
    (hcr : c ≤ r) {v : K}
    (complete : ∑ k ∈ range r, l r k * m k c + l r r * v = if r = c then 1 else 0) :
    RowsOfColumn N l c (r + 1) (setAt m r c v) where
  before b hb := (h.before b hb).setAt v (Or.inl (by omega))
  column a ha := by
    rcases Nat.lt_or_ge a r with har | har
    · exact h.column.setAt v (Or.inr le_rfl) a har
    · obtain rfl : a = r := by omega
      rw [← complete, sum_range_succ, setAt_self]
      refine congrArg (· + _) (sum_congr rfl fun k hk => ?_)
      rw [setAt_row_ne m c v (by have := mem_range.mp hk; omega)]
  above a ha := by
    rw [setAt_row_ne m c v (by omega)]
    exact h.above a ha
  below a ha := by
    rw [setAt_row_ne m c v (by omega)]
    exact h.below a (by omega)
  rest b hb a := by
    rw [setAt_col_ne m r a v (by omega)]
    exact h.rest b hb a

/-- One entry of the inverse factor. -/
theorem invEntry_ok {c r : Nat} {m m' : Nat → Nat → K} (hcr : c ≤ r) (diag : l r r ≠ 0)
    (h : RowsOfColumn N l c r m) (hbody : invEntry tiny l c r m = .ok m') :
    RowsOfColumn N l c (r + 1) m' := by
  have sum : sumFrom (fun k => l r k * m k c) c (r - c) = ∑ k ∈ range r, l r k * m k c := by
    rw [sumFrom_eq, show c + (r - c) = r by omega, range_eq_Ico]
    refine sum_subset (Ico_subset_Ico_left (Nat.zero_le c)) fun k hk hout => ?_
    rw [mem_Ico] at hk hout
    rw [h.above k (by omega), mul_zero]
  unfold invEntry at hbody
  simp only [sum] at hbody
  split at hbody
  · rename_i hrc
    split at hbody
    · cases hbody
    · cases hbody
      refine h.setAt hcr ?_
      rw [if_pos hrc, sum_eq_zero fun k hk => ?_, zero_add, mul_one_div_cancel diag]
      rw [h.above k (by have := mem_range.mp hk; omega), mul_zero]
  · rename_i hrc
    split at hbody
    · cases hbody
    · cases hbody
      refine h.setAt hcr ?_
      rw [if_neg hrc, mul_div_cancel₀ _ diag, add_neg_cancel]

/-- **The inverse of the factor.** -/
theorem invertFactor_ok {m : Nat → Nat → K} (lower : Lower N l) (diag : ∀ a < N, l a a ≠ 0)
    (h : invertFactor tiny N l = .ok m) : ofFn N l * ofFn N m = 1 := by
  have done : ColumnsDone N l (0 + N) m := by
    refine forRange_ok (fun c s s' _ hc hs hcol => ?_)
      ⟨fun b hb => absurd hb (Nat.not_lt_zero b), fun _ _ _ => rfl⟩ h
    have start : RowsOfColumn N l c c s :=
      ⟨hs.done, fun a ha => ?_, fun a _ => hs.rest c le_rfl a, fun a _ => hs.rest c le_rfl a,
        fun b hb => hs.rest b hb.le⟩
    · have column : RowsOfColumn N l c (c + (N - c)) s' :=
        forRange_ok (fun r t t' hcr hr ht hbody => invEntry_ok hcr (diag r (by omega)) ht hbody)
          start hcol
      rw [show c + (N - c) = N by omega] at column
      refine ⟨fun b hb => ?_, fun b hb => column.rest b hb⟩
      rcases Nat.lt_or_ge b c with hbc | hbc
      · exact column.before b hbc
      · obtain rfl : b = c := by omega
        exact column.column
    · rw [if_neg (by omega)]
      exact sum_eq_zero fun k _ => by rw [hs.rest c le_rfl k, mul_zero]
  rw [Nat.zero_add] at done
  ext a b
  rw [Matrix.mul_apply, Matrix.one_apply]
  show ∑ k : Fin N, l a k * m k b = _
  rw [← Finset.sum_range fun k => l a k * m k b, sum_row_lower lower a.isLt fun k => m k b,
    done.done b b.isLt a a.isLt]
  simp only [Fin.ext_iff]

/-- Where no pivot is tiny the inversion runs to the end. -/
theorem invertFactor_total (pivots : ∀ a < N, tiny ≤ l a a) :
    ∃ m, invertFactor tiny N l = .ok m := by
  have column : ∀ col s, 0 ≤ col → col < 0 + N → True →
      ∃ s', forRange (invEntry tiny l col) col (N - col) s = .ok s' ∧ True := by
    intro col s _ hcol _
    refine forRange_total (fun _ _ => True) (fun r t _ hr _ => ?_) trivial
    have hpivot := not_tiny (pivots r (by omega))
    by_cases hrc : r = col
    · exact ⟨_, (if_pos hrc).trans (if_neg hpivot), trivial⟩
    · exact ⟨_, (if_neg hrc).trans (if_neg hpivot), trivial⟩
  obtain ⟨m, hm, -⟩ :=
    forRange_total (fun _ _ => True) (s := fun _ _ => (0 : K)) column trivial
  exact ⟨m, hm⟩

/-- The products of two columns are stored where one of them comes before column `i`, or one is
column `i` and the other before `j`. -/
def GramDone (N : Nat) (m : Nat → Nat → K) (i j : Nat) (inv : Nat → Nat → K) : Prop :=
  ∀ a < N, ∀ b < N, (a < i ∨ b < i ∨ (a = i ∧ b < j) ∨ (b = i ∧ a < j)) →
    inv a b = ∑ k ∈ range N, m k a * m k b

omit [LinearOrder K] in
/-- Storing a product on both sides of the diagonal. -/
theorem GramDone.store {i j : Nat} {m inv : Nat → Nat → K} (h : GramDone N m i j inv) :
    GramDone N m i (j + 1) (gramEntry N m i j inv) := by
  intro a ha b hb hdone
  simp only [gramEntry, sumFrom_zero_eq]
  by_cases hji : a = j ∧ b = i
  · obtain ⟨rfl, rfl⟩ := hji
    rw [setAt_self]
    exact sum_congr rfl fun k _ => mul_comm _ _
  · have first : ∀ (f : Nat → Nat → K) (v : K), setAt f j i v a b = f a b := by
      intro f v
      by_cases haj : a = j
      · exact setAt_col_ne f j a v fun hbi => hji ⟨haj, hbi⟩
      · rw [setAt_row_ne f i v haj]
    rw [first]
    by_cases hij : a = i ∧ b = j
    · obtain ⟨rfl, rfl⟩ := hij
      rw [setAt_self]
    · have second : ∀ (f : Nat → Nat → K) (v : K), setAt f i j v a b = f a b := by
        intro f v
        by_cases hai : a = i
        · exact setAt_col_ne f i a v fun hbj => hij ⟨hai, hbj⟩
        · rw [setAt_row_ne f j v hai]
      rw [second]
      exact h a ha b hb (by omega)

omit [LinearOrder K] in
/-- **What `gram` stores**: the product of the transpose with the matrix. -/
theorem ofFn_gram (N : Nat) (m : Nat → Nat → K) :
    ofFn N (gram N m) = (ofFn N m)ᵀ * ofFn N m := by
  have done : GramDone N m (0 + N) (0 + N) (gram N m) := by
    refine forEach_invariant (fun i inv => GramDone N m i i inv) ?_ ?_
    · intro i inv _ hi hinv
      have column : GramDone N m i (i + (N - i)) (forEach (gramEntry N m i) i (N - i) inv) :=
        forEach_invariant _ (fun j t _ _ ht => ht.store) hinv
      exact fun a ha b hb hdone => column a ha b hb (by omega)
    · exact fun a _ b _ hdone => by omega
  ext a b
  rw [Matrix.mul_apply]
  show gram N m a b = ∑ k : Fin N, m k a * m k b
  rw [done a a.isLt b b.isLt (by omega), Finset.sum_range]

/-! ## The logarithm of the determinant -/

/-- The logarithm turns products of positive numbers into sums. -/
def IsLog (ln : K → K) : Prop := ∀ x y, 0 < x → 0 < y → ln (x * y) = ln x + ln y

/-- One iteration of `log_determinant_cholesky`. -/
def addLog (ln : K → K) (l : Nat → Nat → K) (i : Nat) (logDet : K) : Except Unit K :=
  let diag := l i i
  if diag ≤ 0 then .error () else .ok (logDet + ln diag)

/-- **`log_determinant_cholesky`.** -/
def logDeterminant (ln sqrt : K → K) (tiny : K) {N : Nat} (matrix : Matrix (Fin N) (Fin N) K) :
    Option K :=
  let chol := cholesky sqrt tiny matrix
  if chol.success = false then none
  else ((forRange (addLog ln (load chol.lower)) 0 N 0).toOption).map fun logDet => 2 * logDet

variable [IsStrictOrderedRing K]

/-- The logarithm of one is zero. -/
theorem IsLog.one {ln : K → K} (h : IsLog ln) : ln 1 = 0 := by
  have := h 1 1 one_pos one_pos
  rw [mul_one] at this
  exact left_eq_add.mp this

/-- The loop adds up the logarithm of a product. -/
theorem addLog_total {ln : K → K} (hln : IsLog ln) (diag : ∀ a < N, 0 < l a a) :
    forRange (addLog ln l) 0 N 0 = .ok (ln (∏ i ∈ range N, l i i)) := by
  obtain ⟨r, hr, -, hsum⟩ : ∃ r, forRange (addLog ln l) 0 N 0 = .ok r ∧
      0 < ∏ k ∈ range (0 + N), l k k ∧ r = ln (∏ k ∈ range (0 + N), l k k) :=
    forRange_total
    (fun i logDet => 0 < ∏ k ∈ range i, l k k ∧ logDet = ln (∏ k ∈ range i, l k k))
    (fun i s _ hi hs => by
      have hdiag := diag i (by omega)
      refine ⟨s + ln (l i i), if_neg (not_le.mpr hdiag), ?_, ?_⟩
      · rw [prod_range_succ]
        exact mul_pos hs.1 hdiag
      · rw [prod_range_succ, hln _ _ hs.1 hdiag, hs.2])
    ⟨by rw [range_zero, prod_empty]; exact one_pos, by rw [range_zero, prod_empty, hln.one]⟩
  rw [hr, hsum, Nat.zero_add]

/-! ## Matrices without small eigenvalues -/

/-- They are decomposed with pivots that are not tiny. -/
theorem pivots_of_atLeast {sqrt : K → K} (hsqrt : IsSqrt sqrt) (htiny : 0 < tiny)
    {matrix : Matrix (Fin N) (Fin N) K} (symm : matrix.IsSymm)
    (bound : AtLeast (tiny * tiny) matrix) :
    (cholesky sqrt tiny matrix).success = true ∧
      ∀ a < N, tiny ≤ load (cholesky sqrt tiny matrix).lower a a := by
  obtain ⟨l, hl, pivots⟩ := factor_of_atLeast hsqrt htiny symm bound
  unfold cholesky
  rw [hl]
  refine ⟨rfl, fun a ha => ?_⟩
  rw [load_ofFn l ha ha]
  exact pivots a ha

/-- Every system with such a matrix is solved. -/
theorem solveCholesky_total {sqrt : K → K} (hsqrt : IsSqrt sqrt) (htiny : 0 < tiny)
    {matrix : Matrix (Fin N) (Fin N) K} (symm : matrix.IsSymm)
    (bound : AtLeast (tiny * tiny) matrix) (b : Fin N → K) :
    ∃ x, solveCholesky sqrt tiny matrix b = some x := by
  obtain ⟨success, pivots⟩ := pivots_of_atLeast hsqrt htiny symm bound
  obtain ⟨x, hx⟩ := substitute_total pivots (loadVec b)
  refine ⟨fun i => x i, ?_⟩
  unfold solveCholesky
  dsimp only
  rw [if_neg (by rw [success]; simp), hx]
  rfl

/-- Such a matrix is inverted. -/
theorem inverseCholesky_total {sqrt : K → K} (hsqrt : IsSqrt sqrt) (htiny : 0 < tiny)
    {matrix : Matrix (Fin N) (Fin N) K} (symm : matrix.IsSymm)
    (bound : AtLeast (tiny * tiny) matrix) :
    ∃ inv, inverseCholesky sqrt tiny matrix = some inv := by
  obtain ⟨success, pivots⟩ := pivots_of_atLeast hsqrt htiny symm bound
  obtain ⟨m, hm⟩ := invertFactor_total pivots
  refine ⟨ofFn N (gram N m), ?_⟩
  unfold inverseCholesky
  dsimp only
  rw [if_neg (by rw [success]; simp), hm]
  rfl

/-! ## What the callers get -/

omit [IsStrictOrderedRing K] in
/-- **What `solve_cholesky` returns solves the system.** -/
theorem solveCholesky_correct {sqrt : K → K} (hsqrt : IsSqrt sqrt) (tiny : K) {N : Nat}
    (matrix : Matrix (Fin N) (Fin N) K) (symm : matrix.IsSymm) (b x : Fin N → K)
    (h : solveCholesky sqrt tiny matrix b = some x) : matrix *ᵥ x = b := by
  unfold solveCholesky at h
  dsimp only at h
  split at h
  · cases h
  · rename_i success
    rw [Bool.not_eq_false] at success
    have done := factored_lower hsqrt success
    obtain ⟨z, hz, rfl⟩ := Option.map_eq_some_iff.mp h
    cases hsub : substitute tiny N (load (cholesky sqrt tiny matrix).lower) (loadVec b) with
    | error e => rw [hsub] at hz; cases hz
    | ok z' =>
        rw [hsub] at hz
        cases hz
        have solved := substitute_ok done.lower (fun a ha => (done.diag a ha).ne') hsub
        rw [done.mul_transpose symm, loadVec_val] at solved
        exact solved

/-- A system of two equations. -/
theorem solveCholesky_correct_pair :
    let A : Matrix (Fin 2) (Fin 2) ℝ := !![2, 1; 1, 2]
    ∃ x, solveCholesky Real.sqrt (1 / 10 ^ 15) A ![3, 3] = some x ∧ A *ᵥ x = ![3, 3] := by
  intro A
  obtain ⟨x, hx⟩ := solveCholesky_total isSqrt_sqrt
    (show (0 : ℝ) < 1 / 10 ^ 15 by norm_num) isSymm_pair (atLeast_pair.mono (by norm_num)) ![3, 3]
  exact ⟨x, hx, solveCholesky_correct isSqrt_sqrt _ A isSymm_pair _ x hx⟩

omit [IsStrictOrderedRing K] in
/-- **What `inverse_cholesky` returns is the inverse.** -/
theorem inverseCholesky_correct {sqrt : K → K} (hsqrt : IsSqrt sqrt) (tiny : K) {N : Nat}
    (matrix inv : Matrix (Fin N) (Fin N) K) (symm : matrix.IsSymm)
    (h : inverseCholesky sqrt tiny matrix = some inv) : matrix * inv = 1 ∧ inv * matrix = 1 := by
  unfold inverseCholesky at h
  dsimp only at h
  split at h
  · cases h
  · rename_i success
    rw [Bool.not_eq_false] at success
    have factored := factored_lower hsqrt success
    obtain ⟨m, hm, rfl⟩ := Option.map_eq_some_iff.mp h
    cases hinvert : invertFactor tiny N (load (cholesky sqrt tiny matrix).lower) with
    | error e => rw [hinvert] at hm; cases hm
    | ok m' =>
        rw [hinvert] at hm
        cases hm
        have right := invertFactor_ok factored.lower (fun a ha => (factored.diag a ha).ne') hinvert
        have left := mul_eq_one_comm.mp right
        obtain ⟨L, hL⟩ : ∃ L, L = ofFn N (load (cholesky sqrt tiny matrix).lower) := ⟨_, rfl⟩
        have product := factored.mul_transpose symm
        rw [← hL] at product right left
        have inverse : matrix * ofFn N (gram N m) = 1 := by
          calc matrix * ofFn N (gram N m)
              = L * (ofFn N m * L)ᵀ * ofFn N m := by
                rw [ofFn_gram, ← product, transpose_mul]
                simp only [Matrix.mul_assoc]
            _ = 1 := by rw [left, transpose_one, Matrix.mul_one, right]
        exact ⟨inverse, mul_eq_one_comm.mp inverse⟩

/-- Its matrix is inverted, -/
theorem inverseCholesky_correct_pair :
    let A : Matrix (Fin 2) (Fin 2) ℝ := !![2, 1; 1, 2]
    ∃ inv, inverseCholesky Real.sqrt (1 / 10 ^ 15) A = some inv ∧ A * inv = 1 ∧ inv * A = 1 := by
  intro A
  obtain ⟨inv, hinv⟩ := inverseCholesky_total isSqrt_sqrt
    (show (0 : ℝ) < 1 / 10 ^ 15 by norm_num) isSymm_pair (atLeast_pair.mono (by norm_num))
  exact ⟨inv, hinv, inverseCholesky_correct isSqrt_sqrt _ A inv isSymm_pair hinv⟩

/-- **The logarithm of the determinant** of every matrix that is decomposed. -/
theorem logDeterminant_correct {ln sqrt : K → K} (hln : IsLog ln) (hsqrt : IsSqrt sqrt) (tiny : K)
    {N : Nat} (matrix : Matrix (Fin N) (Fin N) K) (symm : matrix.IsSymm)
    (success : (cholesky sqrt tiny matrix).success = true) :
    logDeterminant ln sqrt tiny matrix = some (ln matrix.det) := by
  have factored := factored_lower hsqrt success
  unfold logDeterminant
  dsimp only
  rw [if_neg (by rw [success]; simp), addLog_total hln factored.diag]
  obtain ⟨l, hl⟩ : ∃ l, l = load (cholesky sqrt tiny matrix).lower := ⟨_, rfl⟩
  rw [← hl] at factored ⊢
  have hpos : 0 < ∏ i ∈ range N, l i i := prod_pos fun i hi => factored.diag i (mem_range.mp hi)
  have hdet : matrix.det = (∏ i ∈ range N, l i i) * ∏ i ∈ range N, l i i := by
    rw [← factored.mul_transpose symm, det_mul, det_transpose, det_lower factored.lower,
      ← Finset.prod_range fun i => l i i]
  rw [hdet, hln _ _ hpos hpos, ← two_mul]
  rfl

/-- and its determinant is three. -/
theorem logDeterminant_correct_pair :
    logDeterminant Real.log Real.sqrt (1 / 10 ^ 15) (!![2, 1; 1, 2] : Matrix (Fin 2) (Fin 2) ℝ) =
      some (Real.log 3) := by
  have success := (pivots_of_atLeast isSqrt_sqrt
    (show (0 : ℝ) < 1 / 10 ^ 15 by norm_num) isSymm_pair (atLeast_pair.mono (by norm_num))).1
  have hln : IsLog Real.log := fun x y hx hy => Real.log_mul hx.ne' hy.ne'
  rw [logDeterminant_correct hln isSqrt_sqrt _ _ isSymm_pair success, det_fin_two_of]
  norm_num

/-! ## Correlated samples -/

/-- **`generate_correlated_samples`.** -/
def generateCorrelatedSamples {N : Nat} (choleskyFactor : Matrix (Fin N) (Fin N) K)
    (uncorrelated : Fin N → K) (i : Fin N) : K :=
  sumFrom (fun j => load choleskyFactor i j * loadVec uncorrelated j) 0 (i + 1)

omit [IsStrictOrderedRing K] in
/-- The samples are the product with the factor. -/
theorem generateCorrelatedSamples_eq {sqrt : K → K} (hsqrt : IsSqrt sqrt)
    {matrix : Matrix (Fin N) (Fin N) K} (success : (cholesky sqrt tiny matrix).success = true)
    (z : Fin N → K) :
    generateCorrelatedSamples (cholesky sqrt tiny matrix).lower z =
      ofFn N (load (cholesky sqrt tiny matrix).lower) *ᵥ z := by
  have lower := (factored_lower hsqrt success).lower
  funext i
  rw [generateCorrelatedSamples, sumFrom_zero_eq, ← mulVec_apply_lower lower, loadVec_val]

omit [IsStrictOrderedRing K] in
/-- **Samples of the decomposed covariance**: if the moments of the arguments are those of
uncorrelated variables, the moments of the results are the entries of the matrix. -/
theorem generateCorrelatedSamples_moments {sqrt : K → K} (hsqrt : IsSqrt sqrt) (tiny : K) {N : Nat}
    (matrix : Matrix (Fin N) (Fin N) K) (symm : matrix.IsSymm)
    (success : (cholesky sqrt tiny matrix).success = true) {S : Type*} (samples : Finset S)
    (weight : S → K) (z : S → Fin N → K)
    (uncorrelated : ∑ s ∈ samples, weight s • vecMulVec (z s) (z s) = 1) :
    ∑ s ∈ samples, weight s •
      vecMulVec (generateCorrelatedSamples (cholesky sqrt tiny matrix).lower (z s))
        (generateCorrelatedSamples (cholesky sqrt tiny matrix).lower (z s)) = matrix := by
  have product := (factored_lower hsqrt success).mul_transpose symm
  simp only [generateCorrelatedSamples_eq hsqrt success]
  obtain ⟨L, hL⟩ : ∃ L, L = ofFn N (load (cholesky sqrt tiny matrix).lower) := ⟨_, rfl⟩
  rw [← hL] at product ⊢
  have outer : ∀ s, vecMulVec (L *ᵥ z s) (L *ᵥ z s) = L * vecMulVec (z s) (z s) * Lᵀ := by
    intro s
    rw [mul_vecMulVec, vecMulVec_mul, vecMul_transpose]
  calc ∑ s ∈ samples, weight s • vecMulVec (L *ᵥ z s) (L *ᵥ z s)
      = L * (∑ s ∈ samples, weight s • vecMulVec (z s) (z s)) * Lᵀ := by
        simp only [outer, Finset.mul_sum, Finset.sum_mul, Matrix.mul_smul, Matrix.smul_mul]
    _ = matrix := by rw [uncorrelated, Matrix.mul_one, product]

/-- Two samples, one for each asset. -/
theorem generateCorrelatedSamples_moments_pair :
    let A : Matrix (Fin 2) (Fin 2) ℝ := !![2, 1; 1, 2]
    let sample := fun s : Fin 2 => generateCorrelatedSamples
      (cholesky Real.sqrt (1 / 10 ^ 15) A).lower (fun i => if i = s then 1 else 0)
    ∑ s, (1 : ℝ) • vecMulVec (sample s) (sample s) = A := by
  have success := (pivots_of_atLeast isSqrt_sqrt
    (show (0 : ℝ) < 1 / 10 ^ 15 by norm_num) isSymm_pair (atLeast_pair.mono (by norm_num))).1
  refine generateCorrelatedSamples_moments isSqrt_sqrt _ _ isSymm_pair success univ
    (fun _ => 1) (fun s i => if i = s then 1 else 0) ?_
  ext i j
  fin_cases i <;> fin_cases j <;> simp [Fin.sum_univ_two, vecMulVec_apply]

/-! ## Making a matrix positive definite -/

/-- `epsilon` is added to the diagonal. -/
def addToDiagonal (epsilon : K) {N : Nat} (matrix : Matrix (Fin N) (Fin N) K) :
    Matrix (Fin N) (Fin N) K :=
  ofFn N (forEach (fun i m => setAt m i i (m i i + epsilon)) 0 N (load matrix))

/-- The loop of `make_positive_definite`. -/
def correct (sqrt : K → K) (tiny : K) {N : Nat} :
    Nat → Matrix (Fin N) (Fin N) K → K → Option (Matrix (Fin N) (Fin N) K)
  | 0, _, _ => none
  | n + 1, corrected, epsilon =>
      if (cholesky sqrt tiny corrected).success then some corrected
      else correct sqrt tiny n (addToDiagonal epsilon corrected) (epsilon * 2)

/-- **`make_positive_definite`.** -/
def makePositiveDefinite (sqrt : K → K) (tiny : K) {N : Nat} (matrix : Matrix (Fin N) (Fin N) K)
    (maxIterations : Nat) (initialEpsilon : K) : Option (Matrix (Fin N) (Fin N) K) :=
  correct sqrt tiny maxIterations matrix initialEpsilon

omit [LinearOrder K] [IsStrictOrderedRing K] in
/-- Adding to the diagonal is adding a multiple of the unit matrix, -/
theorem addToDiagonal_eq (epsilon : K) (matrix : Matrix (Fin N) (Fin N) K) :
    addToDiagonal epsilon matrix = matrix + epsilon • 1 := by
  -- the diagonal has changed before `i`, and nothing else
  have loop : ∀ a b, forEach (fun i m => setAt m i i (m i i + epsilon)) 0 N (load matrix) a b =
      load matrix a b + if a = b ∧ a < 0 + N then epsilon else 0 := by
    refine forEach_invariant (fun i (m : Nat → Nat → K) => ∀ a b,
      m a b = load matrix a b + if a = b ∧ a < i then epsilon else 0) ?_ ?_
    · intro i m _ _ hm a b
      by_cases hab : a = i ∧ b = i
      · obtain ⟨rfl, rfl⟩ := hab
        rw [setAt_self, hm, if_neg (by omega), if_pos (by omega), add_zero]
      · have hne : setAt m i i (m i i + epsilon) a b = m a b := by
          by_cases hai : a = i
          · exact setAt_col_ne m i a _ fun hbi => hab ⟨hai, hbi⟩
          · rw [setAt_row_ne m i _ hai]
        rw [hne, hm]
        refine congrArg _ (if_congr ?_ rfl rfl)
        omega
    · simp
  ext a b
  rw [addToDiagonal, ofFn_apply, loop, Matrix.add_apply, Matrix.smul_apply, one_apply, smul_eq_mul,
    mul_ite, mul_one, mul_zero]
  simp [load, Fin.ext_iff]

/-- A symmetric matrix that is decomposed is positive definite. -/
theorem positiveDefinite_of_success {sqrt : K → K} (hsqrt : IsSqrt sqrt)
    {matrix : Matrix (Fin N) (Fin N) K} (symm : matrix.IsSymm)
    (success : (cholesky sqrt tiny matrix).success = true) : PositiveDefinite matrix := by
  have factored := factored_lower hsqrt success
  rw [← factored.mul_transpose symm]
  exact positiveDefinite_of_factor factored.det_ne_zero

omit [IsStrictOrderedRing K] in
/-- What the loop has added when it returns. -/
theorem correct_eq_some {sqrt : K → K} {result : Matrix (Fin N) (Fin N) K} {n : Nat} :
    ∀ {corrected : Matrix (Fin N) (Fin N) K} {epsilon : K},
      correct sqrt tiny n corrected epsilon = some result →
      ∃ k < n, result = corrected + (epsilon * (2 ^ k - 1)) • 1 ∧
        (cholesky sqrt tiny result).success = true := by
  induction n with
  | zero => intro _ _ h; cases h
  | succ n ih =>
      intro corrected epsilon h
      rw [correct] at h
      split at h
      · rename_i success
        cases h
        exact ⟨0, Nat.succ_pos n, by simp, success⟩
      · obtain ⟨k, hk, hresult, success⟩ := ih h
        refine ⟨k + 1, by omega, ?_, success⟩
        rw [hresult, addToDiagonal_eq, add_assoc, ← add_smul]
        congr 2
        ring

omit [IsStrictOrderedRing K] in
/-- If the matrix that one of the iterations tries is decomposed, the loop returns. -/
theorem correct_isSome {sqrt : K → K} {k : Nat} :
    ∀ {n : Nat} {corrected : Matrix (Fin N) (Fin N) K} {epsilon : K}, k < n →
      (cholesky sqrt tiny (corrected + (epsilon * (2 ^ k - 1)) • 1)).success = true →
      (correct sqrt tiny n corrected epsilon).isSome = true := by
  induction k with
  | zero =>
      intro n corrected epsilon hn success
      obtain ⟨n, rfl⟩ := Nat.exists_eq_succ_of_ne_zero (by omega : n ≠ 0)
      rw [pow_zero, sub_self, mul_zero, zero_smul, add_zero] at success
      rw [correct, if_pos success]
      rfl
  | succ k ih =>
      intro n corrected epsilon hn success
      obtain ⟨n, rfl⟩ := Nat.exists_eq_succ_of_ne_zero (by omega : n ≠ 0)
      rw [correct]
      split
      · rfl
      · refine ih (by omega) ?_
        rw [addToDiagonal_eq, add_assoc, ← add_smul]
        rw [show epsilon + epsilon * 2 * (2 ^ k - 1) = epsilon * (2 ^ (k + 1) - 1) by ring]
        exact success

omit [LinearOrder K] [IsStrictOrderedRing K] in
/-- which keeps a matrix symmetric. -/
theorem isSymm_add_smul_one {matrix : Matrix (Fin N) (Fin N) K} (symm : matrix.IsSymm) (c : K) :
    (matrix + c • 1).IsSymm := by
  rw [IsSymm, transpose_add, transpose_smul, transpose_one, symm.eq]

/-- **What `make_positive_definite` returns** is positive definite, and the argument with a
multiple of the unit matrix added. -/
theorem makePositiveDefinite_correct {sqrt : K → K} (hsqrt : IsSqrt sqrt) (tiny : K) {N : Nat}
    (matrix result : Matrix (Fin N) (Fin N) K) (symm : matrix.IsSymm) (maxIterations : Nat)
    (epsilon : K) (h : makePositiveDefinite sqrt tiny matrix maxIterations epsilon = some result) :
    PositiveDefinite result ∧
      ∃ k < maxIterations, result = matrix + (epsilon * (2 ^ k - 1)) • 1 := by
  obtain ⟨k, hk, hresult, success⟩ := correct_eq_some h
  refine ⟨positiveDefinite_of_success hsqrt ?_ success, k, hk, hresult⟩
  rw [hresult]
  exact isSymm_add_smul_one symm _

/-- Perfect correlation is symmetric, -/
theorem isSymm_singular : (!![1, 1; 1, 1] : Matrix (Fin 2) (Fin 2) ℝ).IsSymm := by
  ext i j
  fin_cases i <;> fin_cases j <;> rfl

/-- and not positive definite. -/
theorem not_positiveDefinite_singular :
    ¬ PositiveDefinite (!![1, 1; 1, 1] : Matrix (Fin 2) (Fin 2) ℝ) := by
  intro h
  have hpos := h.pos ![1, -1] (by simp)
  simp [mulVec, dotProduct, Fin.sum_univ_two] at hpos

/-- Two perfectly correlated assets are corrected once. -/
theorem makePositiveDefinite_correct_singular :
    makePositiveDefinite Real.sqrt (1 / 10 ^ 15) (!![1, 1; 1, 1] : Matrix (Fin 2) (Fin 2) ℝ) 10 1 =
        some !![2, 1; 1, 2] ∧
      PositiveDefinite (!![2, 1; 1, 2] : Matrix (Fin 2) (Fin 2) ℝ) := by
  have fails : (cholesky Real.sqrt (1 / 10 ^ 15)
      (!![1, 1; 1, 1] : Matrix (Fin 2) (Fin 2) ℝ)).success ≠ true := fun success =>
    not_positiveDefinite_singular (positiveDefinite_of_success isSqrt_sqrt isSymm_singular success)
  have corrected : addToDiagonal 1 (!![1, 1; 1, 1] : Matrix (Fin 2) (Fin 2) ℝ) =
      !![2, 1; 1, 2] := by
    rw [addToDiagonal_eq]
    ext i j
    fin_cases i <;> fin_cases j <;> norm_num
  have success := (pivots_of_atLeast isSqrt_sqrt
    (show (0 : ℝ) < 1 / 10 ^ 15 by norm_num) isSymm_pair (atLeast_pair.mono (by norm_num))).1
  have returns : makePositiveDefinite Real.sqrt (1 / 10 ^ 15)
      (!![1, 1; 1, 1] : Matrix (Fin 2) (Fin 2) ℝ) 10 1 = some !![2, 1; 1, 2] := by
    unfold makePositiveDefinite correct
    rw [if_neg fails, corrected]
    unfold correct
    rw [if_pos success]
  exact ⟨returns,
    (makePositiveDefinite_correct isSqrt_sqrt _ _ _ isSymm_singular 10 1 returns).1⟩

/-- **Given enough iterations** every symmetric matrix is made positive definite. -/
theorem makePositiveDefinite_total [Archimedean K] {sqrt : K → K} (hsqrt : IsSqrt sqrt) {tiny : K}
    (htiny : 0 < tiny) {N : Nat} (matrix : Matrix (Fin N) (Fin N) K) (symm : matrix.IsSymm)
    {epsilon : K} (hepsilon : 0 < epsilon) :
    ∃ enough, ∀ maxIterations, enough ≤ maxIterations →
      (makePositiveDefinite sqrt tiny matrix maxIterations epsilon).isSome = true := by
  obtain ⟨k, hk⟩ := pow_unbounded_of_one_lt
    ((tiny * tiny + ∑ i, ∑ j, |matrix i j|) / epsilon + 1) (one_lt_two (α := K))
  refine ⟨k + 1, fun maxIterations hmax => correct_isSome (k := k) (by omega) ?_⟩
  have large : tiny * tiny + ∑ i, ∑ j, |matrix i j| ≤ epsilon * (2 ^ k - 1) := by
    rw [← div_le_iff₀' hepsilon]
    exact (lt_sub_iff_add_lt.mpr hk).le
  have bound : AtLeast (tiny * tiny) (matrix + (epsilon * (2 ^ k - 1)) • 1) :=
    ((atLeast_neg_sum matrix).add_smul_one _).mono (by linarith)
  obtain ⟨l, hl, -⟩ := factor_of_atLeast hsqrt htiny (isSymm_add_smul_one symm _) bound
  unfold cholesky
  rw [hl]

/-- Two perfectly correlated assets. -/
theorem makePositiveDefinite_total_singular :
    ∃ enough, ∀ maxIterations, enough ≤ maxIterations →
      (makePositiveDefinite Real.sqrt (1 / 10 ^ 15) (!![1, 1; 1, 1] : Matrix (Fin 2) (Fin 2) ℝ)
        maxIterations (1 / 10 ^ 8)).isSome = true :=
  makePositiveDefinite_total isSqrt_sqrt (by norm_num) _ isSymm_singular (by norm_num)

end StopTrading.Linalg
