import Mathlib

/-!
# Triangular factors of symmetric matrices

Facts about `A = L * Lᵀ` with a lower triangular `L` over an ordered field, for algorithms that
compute `L`, or solve with it, one entry at a time.  Families are indexed by natural numbers, as
the loops of such algorithms are; `ofFn n l` is the matrix of the first `n` rows and columns.

* `PositiveDefinite` — symmetric with a positive form; `AtLeast c` — a form at least `c` times
  the square of the length.
* `positiveDefinite_of_factor` — a product `L * Lᵀ` with positive diagonal is positive definite.
* `atLeast_neg_sum`, `AtLeast.add_smul_one` — every form has a lower bound, and adding to the
  diagonal raises it.
* `pivot_of_atLeast` — the pivot that remains after some columns of a factor is at least `c`
  where the form is.
* `mulVec_apply_lower`, `transpose_mulVec_apply_lower` — a triangular product, row by row.

### What is load-bearing

Success of a Cholesky decomposition is a statement about pivots, and definiteness one about
vectors. They meet in `exists_orthogonal`: to the columns found so far there is a vector that all
of them vanish on and whose last coordinate is one.  On it the form is exactly the pivot that
remains (`form_of_partial`), so a lower bound of the form is one of every pivot, whatever was
computed before.  The other direction is `positiveDefinite_of_factor`, which needs only that the
factor is invertible.

Everything is over an ordered field.  The square root of a program enters as a function of which
the clients assume that it is one.
-/

namespace StopTrading.Triangular

open Matrix Finset

universe u

variable {K : Type u}

/-- The first `n` rows and columns. -/
def ofFn (n : Nat) (l : Nat → Nat → K) : Matrix (Fin n) (Fin n) K := .of fun i j => l i j

/-- An entry. -/
@[simp] theorem ofFn_apply (n : Nat) (l : Nat → Nat → K) (i j : Fin n) : ofFn n l i j = l i j :=
  rfl

/-- No entry above the diagonal among the first `n` rows and columns. -/
def Lower [Zero K] (n : Nat) (l : Nat → Nat → K) : Prop := ∀ a < n, ∀ b < n, a < b → l a b = 0

section Field

variable [Field K]

/-! ## Triangular products -/

/-- A sum over a lower triangular row ends at the diagonal. -/
theorem sum_row_lower {n : Nat} {l : Nat → Nat → K} (h : Lower n l) {i : Nat} (hi : i < n)
    (y : Nat → K) : ∑ j ∈ range n, l i j * y j = ∑ j ∈ range (i + 1), l i j * y j := by
  refine (sum_subset (range_subset_range.mpr hi) fun j hj hout => ?_).symm
  rw [mem_range] at hj hout
  rw [h i hi j hj (by omega), zero_mul]

/-- A sum over a lower triangular column starts at the diagonal. -/
theorem sum_col_lower {n : Nat} {l : Nat → Nat → K} (h : Lower n l) {i : Nat} (hi : i < n)
    (x : Nat → K) : ∑ j ∈ range n, l j i * x j = ∑ j ∈ Ico i n, l j i * x j := by
  refine (sum_subset (fun j hj => ?_) fun j hj hout => ?_).symm
  · exact mem_range.mpr (mem_Ico.mp hj).2
  · rw [mem_range] at hj
    rw [mem_Ico] at hout
    rw [h j hj i hi (by omega), zero_mul]

/-- A row of a triangular product ends at the diagonal. -/
theorem mulVec_apply_lower {n : Nat} {l : Nat → Nat → K} (h : Lower n l) (y : Nat → K)
    (i : Fin n) :
    (ofFn n l *ᵥ fun j => y j) i = ∑ j ∈ range (i + 1), l i j * y j := by
  rw [← sum_row_lower h i.isLt y, Finset.sum_range]
  rfl

/-- A row of the transposed product starts there. -/
theorem transpose_mulVec_apply_lower {n : Nat} {l : Nat → Nat → K} (h : Lower n l) (x : Nat → K)
    (i : Fin n) :
    ((ofFn n l)ᵀ *ᵥ fun j => x j) i = ∑ j ∈ Ico (i : Nat) n, l j i * x j := by
  rw [← sum_col_lower h i.isLt x, Finset.sum_range]
  rfl

/-- The determinant is the product of the diagonal. -/
theorem det_lower {n : Nat} {l : Nat → Nat → K} (h : Lower n l) :
    (ofFn n l).det = ∏ i : Fin n, l i i := by
  refine det_of_isLowerTriangular (ofFn n l) fun i j hij => ?_
  exact h i i.isLt j j.isLt hij

/-- Below the diagonal the rows of a product `L * Lᵀ` are sums up to the column. -/
theorem mul_transpose_eq {n : Nat} {l A : Nat → Nat → K} (h : Lower n l)
    (symm : ∀ a < n, ∀ b < n, A a b = A b a)
    (product : ∀ a < n, ∀ b ≤ a, ∑ k ∈ range (b + 1), l a k * l b k = A a b) :
    ofFn n l * (ofFn n l)ᵀ = ofFn n A := by
  have below : ∀ a < n, ∀ b ≤ a, ∑ k ∈ range n, l a k * l b k = A a b := by
    intro a ha b hb
    rw [← product a ha b hb]
    have hrow := sum_row_lower h (show b < n by omega) (l a)
    simp only [mul_comm (l b _)] at hrow
    exact hrow
  ext a b
  rw [Matrix.mul_apply]
  show ∑ k : Fin n, l a k * l b k = A a b
  rw [← Finset.sum_range fun k => l a k * l b k]
  rcases le_total (b : Nat) a with hab | hab
  · exact below a a.isLt b hab
  · rw [symm a a.isLt b b.isLt, ← below b b.isLt a hab]
    exact sum_congr rfl fun k _ => mul_comm _ _

/-! ## A vector orthogonal to the columns -/

/-- **There is a vector orthogonal to `n` lower triangular columns** of which the diagonal is
not zero, with last coordinate one. -/
theorem exists_orthogonal {n : Nat} {l : Nat → Nat → K} (lower : Lower n l)
    (diag : ∀ a < n, l a a ≠ 0) :
    ∃ x : Nat → K, x n = 1 ∧ ∀ k < n, ∑ a ∈ range (n + 1), l a k * x a = 0 := by
  -- the equations are met from the last column on
  have from_last : ∀ m ≤ n, ∃ x : Nat → K, x n = 1 ∧
      ∀ k, n - m ≤ k → k < n → ∑ a ∈ range (n + 1), l a k * x a = 0 := by
    intro m
    induction m with
    | zero => exact fun _ => ⟨fun _ => 1, rfl, fun k hk hkn => by omega⟩
    | succ m ih =>
        intro hm
        obtain ⟨x, hx, heq⟩ := ih (by omega)
        obtain ⟨i, hi⟩ : ∃ i, i = n - (m + 1) := ⟨_, rfl⟩
        have hin : i < n := by omega
        have hmem : i ∈ range (n + 1) := mem_range.mpr (by omega)
        have away : ∀ (v : K) (k : Nat), ∑ a ∈ (range (n + 1)).erase i,
            l a k * Function.update x i v a = ∑ a ∈ (range (n + 1)).erase i, l a k * x a := by
          intro v k
          refine sum_congr rfl fun a ha => ?_
          rw [Function.update_of_ne (ne_of_mem_erase ha)]
        refine ⟨Function.update x i
          (-(∑ a ∈ (range (n + 1)).erase i, l a i * x a) / l i i), ?_, ?_⟩
        · rw [Function.update_of_ne (by omega), hx]
        · intro k hk hkn
          rw [← Finset.add_sum_erase _ _ hmem, away, Function.update_self]
          rcases Nat.lt_or_ge i k with hik | hik
          · rw [lower i hin k hkn hik, zero_mul, zero_add]
            have := heq k (by omega) hkn
            rw [← Finset.add_sum_erase _ _ hmem, lower i hin k hkn hik, zero_mul, zero_add] at this
            exact this
          · obtain rfl : k = i := by omega
            rw [mul_div_cancel₀ _ (diag k hin), neg_add_cancel]
  obtain ⟨x, hx, heq⟩ := from_last n le_rfl
  exact ⟨x, hx, fun k hk => heq k (by omega) hk⟩

/-- **The form of a partial factor**: squares of the products with its columns, and what the
remainder contributes. -/
theorem form_of_partial {n m : Nat} {l A d : Nat → Nat → K} (x : Nat → K)
    (partial' : ∀ a < n, ∀ b < n, A a b = ∑ k ∈ range m, l a k * l b k + d a b) :
    ∑ a ∈ range n, ∑ b ∈ range n, x a * (A a b * x b) =
      ∑ k ∈ range m, (∑ a ∈ range n, l a k * x a) ^ 2 +
        ∑ a ∈ range n, ∑ b ∈ range n, x a * (d a b * x b) := by
  have expand : ∀ a ∈ range n, ∀ b ∈ range n, x a * (A a b * x b) =
      ∑ k ∈ range m, (l a k * x a) * (l b k * x b) + x a * (d a b * x b) := by
    intro a ha b hb
    rw [partial' a (mem_range.mp ha) b (mem_range.mp hb), add_mul, mul_add, Finset.sum_mul,
      Finset.mul_sum]
    refine congrArg (· + _) (sum_congr rfl fun k _ => ?_)
    ring
  rw [sum_congr rfl fun a ha => sum_congr rfl fun b hb => expand a ha b hb]
  simp only [sum_add_distrib]
  refine congrArg (· + _) ?_
  simp only [pow_two, Finset.sum_mul_sum]
  rw [sum_congr rfl fun a _ => sum_comm (s := range n) (t := range m), sum_comm]

end Field

section Order

variable [Field K] [LinearOrder K] [IsStrictOrderedRing K]

/-! ## Definite forms -/

/-- **Positive definite**: symmetric, and positive on every vector but zero. -/
structure PositiveDefinite {n : Nat} (A : Matrix (Fin n) (Fin n) K) : Prop where
  /-- symmetric -/
  symm : A.IsSymm
  /-- and positive -/
  pos : ∀ x, x ≠ 0 → 0 < x ⬝ᵥ A *ᵥ x

/-- The form is at least `c` times the square of the length: no eigenvalue is below `c`. -/
def AtLeast {n : Nat} (c : K) (A : Matrix (Fin n) (Fin n) K) : Prop :=
  ∀ x : Fin n → K, c * (x ⬝ᵥ x) ≤ x ⬝ᵥ A *ᵥ x

/-- A vector that is not zero has a length. -/
theorem dotProduct_self_pos {n : Nat} {x : Fin n → K} (h : x ≠ 0) : 0 < x ⬝ᵥ x := by
  refine lt_of_le_of_ne (sum_nonneg fun i _ => mul_self_nonneg (x i)) fun heq => h ?_
  exact dotProduct_self_eq_zero.mp heq.symm

omit [LinearOrder K] [IsStrictOrderedRing K] in
/-- The form of a product is a square. -/
theorem form_mul_transpose {n : Nat} (L : Matrix (Fin n) (Fin n) K) (x : Fin n → K) :
    x ⬝ᵥ (L * Lᵀ) *ᵥ x = (Lᵀ *ᵥ x) ⬝ᵥ (Lᵀ *ᵥ x) := by
  rw [← mulVec_mulVec, dotProduct_mulVec, mulVec_transpose]

/-- **A product `L * Lᵀ` with an invertible factor** is positive definite. -/
theorem positiveDefinite_of_factor {n : Nat} {L : Matrix (Fin n) (Fin n) K} (h : L.det ≠ 0) :
    PositiveDefinite (L * Lᵀ) where
  symm := by rw [IsSymm, transpose_mul, transpose_transpose]
  pos x hx := by
    rw [form_mul_transpose]
    refine dotProduct_self_pos fun hzero => hx ?_
    exact eq_zero_of_mulVec_eq_zero (by rwa [det_transpose]) hzero

omit [LinearOrder K] [IsStrictOrderedRing K] in
/-- What is added to the diagonal comes out as a multiple of the square of the length. -/
theorem form_add_smul_one {n : Nat} (A : Matrix (Fin n) (Fin n) K) (c : K) (x : Fin n → K) :
    x ⬝ᵥ (A + c • 1) *ᵥ x = x ⬝ᵥ A *ᵥ x + c * (x ⬝ᵥ x) := by
  rw [add_mulVec, smul_mulVec, one_mulVec, dotProduct_add, dotProduct_smul, smul_eq_mul]

/-- Adding to the diagonal raises the lower bound. -/
theorem AtLeast.add_smul_one {n : Nat} {c : K} {A : Matrix (Fin n) (Fin n) K} (h : AtLeast c A)
    (d : K) : AtLeast (c + d) (A + d • 1) := by
  intro x
  rw [form_add_smul_one, add_mul]
  exact add_le_add_left (h x) _

/-- A lower bound may be lowered. -/
theorem AtLeast.mono {n : Nat} {c d : K} {A : Matrix (Fin n) (Fin n) K} (h : AtLeast c A)
    (hdc : d ≤ c) : AtLeast d A := fun x =>
  (mul_le_mul_of_nonneg_right hdc (sum_nonneg fun i _ => mul_self_nonneg (x i))).trans (h x)

/-- **Every form has a lower bound**: minus the sum of the absolute values. -/
theorem atLeast_neg_sum {n : Nat} (A : Matrix (Fin n) (Fin n) K) :
    AtLeast (-∑ i, ∑ j, |A i j|) A := by
  intro x
  have coordinate : ∀ i, |x i| * |x i| ≤ x ⬝ᵥ x := by
    intro i
    rw [abs_mul_abs_self]
    exact single_le_sum (f := fun i => x i * x i) (fun i _ => mul_self_nonneg (x i)) (mem_univ i)
  have product : ∀ i j, |x i| * |x j| ≤ x ⬝ᵥ x := by
    intro i j
    rcases le_total |x i| |x j| with hle | hle
    · exact (mul_le_mul_of_nonneg_right hle (abs_nonneg _)).trans (coordinate j)
    · exact (mul_le_mul_of_nonneg_left hle (abs_nonneg _)).trans (coordinate i)
  have entry : ∀ i j, -(|A i j| * (x ⬝ᵥ x)) ≤ x i * (A i j * x j) := by
    intro i j
    calc -(|A i j| * (x ⬝ᵥ x)) ≤ -(|A i j| * (|x i| * |x j|)) :=
          neg_le_neg (mul_le_mul_of_nonneg_left (product i j) (abs_nonneg _))
      _ = -|x i * (A i j * x j)| := by rw [abs_mul, abs_mul]; ring
      _ ≤ x i * (A i j * x j) := neg_abs_le _
  calc (-∑ i, ∑ j, |A i j|) * (x ⬝ᵥ x) = ∑ i, ∑ j, -(|A i j| * (x ⬝ᵥ x)) := by
        simp only [neg_mul, sum_mul, sum_neg_distrib]
    _ ≤ ∑ i, ∑ j, x i * (A i j * x j) := sum_le_sum fun i _ => sum_le_sum fun j _ => entry i j
    _ = x ⬝ᵥ A *ᵥ x := by simp only [dotProduct, mulVec, mul_sum]

/-- **The next pivot is at least the lower bound of the form.** -/
theorem pivot_of_atLeast {n i : Nat} (hi : i < n) {c d : K} (hc : 0 ≤ c)
    {A l : Nat → Nat → K} (bound : AtLeast c (ofFn n A)) (lower : Lower i l)
    (diag : ∀ a < i, l a a ≠ 0)
    (partial' : ∀ a < i + 1, ∀ b < i + 1,
      A a b = ∑ k ∈ range i, l a k * l b k + if a = i ∧ b = i then d else 0) : c ≤ d := by
  obtain ⟨x, hx, orthogonal⟩ := exists_orthogonal lower diag
  -- a vector on which the form is the pivot: orthogonal to the rows above, and zero below
  obtain ⟨z, hz⟩ : ∃ z : Nat → K, z = fun a => if a < i + 1 then x a else 0 := ⟨_, rfl⟩
  have inside : ∀ a < i + 1, z a = x a := fun a ha => by rw [hz]; exact if_pos ha
  have outside : ∀ a, ¬ a < i + 1 → z a = 0 := fun a ha => by rw [hz]; exact if_neg ha
  have cut : ∀ f : Nat → K, (∀ a, ¬ a < i + 1 → f a = 0) →
      ∑ a ∈ range n, f a = ∑ a ∈ range (i + 1), f a := by
    intro f hf
    refine (sum_subset (range_subset_range.mpr hi) fun a _ hout => hf a ?_).symm
    exact fun h => hout (mem_range.mpr h)
  have form : (fun a : Fin n => z a) ⬝ᵥ ofFn n A *ᵥ (fun a : Fin n => z a) = d := by
    calc (fun a : Fin n => z a) ⬝ᵥ ofFn n A *ᵥ (fun a : Fin n => z a)
        = ∑ a ∈ range n, ∑ b ∈ range n, z a * (A a b * z b) := by
          rw [Finset.sum_range fun a => ∑ b ∈ range n, z a * (A a b * z b)]
          refine sum_congr rfl fun a _ => ?_
          rw [Finset.sum_range fun b => z a * (A a b * z b), ← Finset.mul_sum]
          rfl
      _ = ∑ a ∈ range (i + 1), ∑ b ∈ range (i + 1), x a * (A a b * x b) := by
          rw [cut _ fun a ha => sum_eq_zero fun b _ => by simp [outside a ha]]
          refine sum_congr rfl fun a ha => ?_
          rw [cut _ fun b hb => by simp [outside b hb]]
          refine sum_congr rfl fun b hb => ?_
          rw [inside a (mem_range.mp ha), inside b (mem_range.mp hb)]
      _ = ∑ k ∈ range i, (∑ a ∈ range (i + 1), l a k * x a) ^ 2 +
            ∑ a ∈ range (i + 1), ∑ b ∈ range (i + 1),
              x a * ((if a = i ∧ b = i then d else 0) * x b) := form_of_partial x partial'
      _ = d := by
          rw [sum_eq_zero fun k hk => by rw [orthogonal k (mem_range.mp hk)]; simp, zero_add]
          rw [sum_eq_single_of_mem i (by simp) fun a _ ha => by simp [ha],
            sum_eq_single_of_mem i (by simp) fun b _ hb => by simp [hb]]
          simp [hx]
  have length : 1 ≤ (fun a : Fin n => z a) ⬝ᵥ (fun a : Fin n => z a) := by
    have hzi : z i = 1 := by rw [inside i (Nat.lt_succ_self i), hx]
    calc (1 : K) = z i * z i := by rw [hzi, one_mul]
      _ ≤ ∑ a : Fin n, z a * z a :=
          single_le_sum (f := fun a : Fin n => z a * z a) (fun a _ => mul_self_nonneg (z a))
            (mem_univ (⟨i, hi⟩ : Fin n))
  calc c = c * 1 := (mul_one c).symm
    _ ≤ c * _ := mul_le_mul_of_nonneg_left length hc
    _ ≤ _ := bound _
    _ = d := form

end Order

end StopTrading.Triangular
