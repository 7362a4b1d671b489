import Mathlib

/-!
# Central moments of growing samples

The mean of a list of numbers, the sums of powers of the distances from it (`central`), and the
sum of products for pairs (`coMoment`).

When a sample of `k` grows by a number, its mean moves by a step `d`, which is the distance of the
number from the old mean over `k + 1`.  The `_concat` lemmas say what becomes of the moments, in
`k`, `d` and the old moments of lower order: this is how they are kept in a single pass.

### How the updates are obtained

A central moment is taken about a point that moves with every number.  Expanding it about the new
mean directly gives polynomials that no one wants to see.  Instead the `_shift` lemmas move the
point by `d` and say what this costs in lower moments; the first moment about the mean vanishes
(`momentAbout_one_mean`), and adding the new number about the new point is one summand.  Each
`_concat` lemma is a shift and a summand.

Everything is over a field of characteristic zero and says nothing about rounding.
-/

namespace StopTrading.CentralMoments

variable {K : Type*} [Field K]

/-- The arithmetic mean, zero of an empty sample. -/
def mean (xs : List K) : K := xs.sum / xs.length

/-- The sum of the powers of the distances from a point. -/
def momentAbout (p : Nat) (c : K) (xs : List K) : K := (xs.map fun x => (x - c) ^ p).sum

/-- **The sum of the powers of the distances from the mean.** -/
def central (p : Nat) (xs : List K) : K := momentAbout p (mean xs) xs

/-- The sum of the products of the distances from two points. -/
def coMomentAbout (a b : K) (ps : List (K × K)) : K :=
  (ps.map fun p => (p.1 - a) * (p.2 - b)).sum

/-- **The sum of the products of the distances from the means.** -/
def coMoment (ps : List (K × K)) : K :=
  coMomentAbout (mean (ps.map Prod.fst)) (mean (ps.map Prod.snd)) ps

/-- The mean of nothing, as programs return it. -/
@[simp] theorem mean_nil : mean ([] : List K) = 0 := by simp [mean]

/-- One summand at the front, -/
@[simp] theorem momentAbout_cons (p : Nat) (c x : K) (xs : List K) :
    momentAbout p c (x :: xs) = (x - c) ^ p + momentAbout p c xs := by
  simp [momentAbout]

/-- and one at the end. -/
theorem momentAbout_concat (p : Nat) (c : K) (xs : List K) (x : K) :
    momentAbout p c (xs ++ [x]) = momentAbout p c xs + (x - c) ^ p := by
  simp [momentAbout]

/-- The same for pairs. -/
@[simp] theorem coMomentAbout_cons (a b : K) (p : K × K) (ps : List (K × K)) :
    coMomentAbout a b (p :: ps) = (p.1 - a) * (p.2 - b) + coMomentAbout a b ps := by
  simp [coMomentAbout]

/-- At the end. -/
theorem coMomentAbout_concat (a b : K) (ps : List (K × K)) (p : K × K) :
    coMomentAbout a b (ps ++ [p]) = coMomentAbout a b ps + (p.1 - a) * (p.2 - b) := by
  simp [coMomentAbout]

/-! ## Another point -/

section Shift

variable (c d : K) (xs : List K)

/-- Second moments about a point further on. -/
theorem momentAbout_two_shift :
    momentAbout 2 (c + d) xs =
      momentAbout 2 c xs - 2 * d * momentAbout 1 c xs + xs.length * d ^ 2 := by
  induction xs with
  | nil => simp [momentAbout]
  | cons x xs ih =>
      simp only [momentAbout_cons, ih, List.length_cons, Nat.cast_add, Nat.cast_one]
      ring

/-- Third moments. -/
theorem momentAbout_three_shift :
    momentAbout 3 (c + d) xs =
      momentAbout 3 c xs - 3 * d * momentAbout 2 c xs + 3 * d ^ 2 * momentAbout 1 c xs -
        xs.length * d ^ 3 := by
  induction xs with
  | nil => simp [momentAbout]
  | cons x xs ih =>
      simp only [momentAbout_cons, ih, List.length_cons, Nat.cast_add, Nat.cast_one]
      ring

/-- Fourth moments. -/
theorem momentAbout_four_shift :
    momentAbout 4 (c + d) xs =
      momentAbout 4 c xs - 4 * d * momentAbout 3 c xs + 6 * d ^ 2 * momentAbout 2 c xs -
        4 * d ^ 3 * momentAbout 1 c xs + xs.length * d ^ 4 := by
  induction xs with
  | nil => simp [momentAbout]
  | cons x xs ih =>
      simp only [momentAbout_cons, ih, List.length_cons, Nat.cast_add, Nat.cast_one]
      ring

/-- Products, where both points move. -/
theorem coMomentAbout_shift (a b u v : K) (ps : List (K × K)) :
    coMomentAbout (a + u) (b + v) ps =
      coMomentAbout a b ps - u * momentAbout 1 b (ps.map Prod.snd) -
        v * momentAbout 1 a (ps.map Prod.fst) + ps.length * (u * v) := by
  induction ps with
  | nil => simp [coMomentAbout, momentAbout]
  | cons p ps ih =>
      simp only [coMomentAbout_cons, List.map_cons, momentAbout_cons, ih, List.length_cons,
        Nat.cast_add, Nat.cast_one]
      ring

end Shift

/-! ## Growing -/

variable [CharZero K]

/-- The distances from the mean cancel. -/
@[simp] theorem momentAbout_one_mean (xs : List K) : momentAbout 1 (mean xs) xs = 0 := by
  have hsum : ∀ (c : K) (xs : List K), momentAbout 1 c xs = xs.sum - xs.length * c := by
    intro c xs
    induction xs with
    | nil => simp [momentAbout]
    | cons x xs ih =>
        simp only [momentAbout_cons, ih, List.length_cons, List.sum_cons, Nat.cast_add,
          Nat.cast_one]
        ring
  cases xs with
  | nil => rfl
  | cons x xs =>
      have hlength : (((x :: xs).length : Nat) : K) ≠ 0 := Nat.cast_ne_zero.mpr (by simp)
      rw [hsum, mean, mul_div_cancel₀ _ hlength, sub_self]

/-- The sum of the squared distances from the mean, by the sum of the squares. -/
theorem central_two_eq (xs : List K) :
    central 2 xs = (xs.map (· ^ 2)).sum - xs.length * mean xs ^ 2 := by
  have hsquares : momentAbout 2 0 xs = (xs.map (· ^ 2)).sum := by simp [momentAbout]
  have hshift := momentAbout_two_shift (mean xs) (-mean xs) xs
  rw [add_neg_cancel, hsquares, momentAbout_one_mean] at hshift
  rw [hshift, central]
  ring

/-- How far the mean moves when a number is added. -/
def meanStep (xs : List K) (x : K) : K := (x - mean xs) / (xs.length + 1)

omit [CharZero K] in
/-- The step as it is computed with a count. -/
theorem sub_mean_div (xs : List K) (x : K) {count : Nat} (h : count = xs.length) :
    (x - mean xs) / ((count + 1 : Nat) : K) = meanStep xs x := by
  rw [meanStep, h, Nat.cast_succ]

/-- The distance of the new number from the old mean. -/
theorem sub_mean (xs : List K) (x : K) : x - mean xs = (xs.length + 1) * meanStep xs x :=
  (mul_div_cancel₀ _ (Nat.cast_add_one_ne_zero xs.length)).symm

/-- The mean moves by the step. -/
theorem mean_concat (xs : List K) (x : K) : mean (xs ++ [x]) = mean xs + meanStep xs x := by
  have hsucc : ((xs.length : K) + 1) ≠ 0 := Nat.cast_add_one_ne_zero xs.length
  have hsum : xs.sum = xs.length * mean xs := by
    cases xs with
    | nil => simp
    | cons y ys =>
        have hlength : (((y :: ys).length : Nat) : K) ≠ 0 := Nat.cast_ne_zero.mpr (by simp)
        rw [mean, mul_div_cancel₀ _ hlength]
  rw [mean, List.sum_append, List.sum_singleton, List.length_append, List.length_singleton,
    Nat.cast_add, Nat.cast_one, div_eq_iff hsucc, hsum]
  linear_combination sub_mean xs x

/-- The mean of equal numbers. -/
theorem mean_of_forall_eq {xs : List K} {c : K} (hne : xs ≠ []) (h : ∀ x ∈ xs, x = c) :
    mean xs = c := by
  have hlength : (xs.length : K) ≠ 0 := Nat.cast_ne_zero.mpr (List.length_pos_iff.mpr hne).ne'
  have hsum : xs.sum = xs.length * c := by
    rw [List.eq_replicate_of_mem h, List.sum_replicate, List.length_replicate, nsmul_eq_mul]
  rw [mean, hsum, mul_div_cancel_left₀ _ hlength]

/-- **The mean of equal numbers stays where it is** only if one more of them is added. -/
theorem length_mul_meanStep_eq_zero_iff {xs : List K} (hequal : ∀ x ∈ xs, ∀ y ∈ xs, x = y)
    (x : K) : (xs.length : K) * meanStep xs x = 0 ↔ ∀ y ∈ xs, y = x := by
  by_cases hne : xs = []
  · subst hne
    simp
  · obtain ⟨c, hc⟩ := List.exists_mem_of_ne_nil xs hne
    have hmean := mean_of_forall_eq hne fun y hy => hequal y hy c hc
    have hlength : (xs.length : K) ≠ 0 := Nat.cast_ne_zero.mpr (List.length_pos_iff.mpr hne).ne'
    have hsucc : ((xs.length : K) + 1) ≠ 0 := Nat.cast_add_one_ne_zero xs.length
    rw [mul_eq_zero, or_iff_right hlength, meanStep, div_eq_zero_iff, or_iff_left hsucc, hmean,
      sub_eq_zero]
    constructor
    · rintro rfl y hy
      exact hequal y hy x hc
    · exact fun h => (h c hc).symm

/-- **One more number**: the sum of squares, -/
theorem central_two_concat (xs : List K) (x : K) :
    central 2 (xs ++ [x]) =
      central 2 xs + xs.length * (xs.length + 1) * meanStep xs x ^ 2 := by
  have hx : x - (mean xs + meanStep xs x) = xs.length * meanStep xs x := by
    linear_combination sub_mean xs x
  rw [central, mean_concat, momentAbout_concat, momentAbout_two_shift, momentAbout_one_mean, hx]
  unfold central
  ring

/-- of cubes, -/
theorem central_three_concat (xs : List K) (x : K) :
    central 3 (xs ++ [x]) =
      central 3 xs - 3 * meanStep xs x * central 2 xs +
        xs.length * (xs.length + 1) * (xs.length - 1) * meanStep xs x ^ 3 := by
  have hx : x - (mean xs + meanStep xs x) = xs.length * meanStep xs x := by
    linear_combination sub_mean xs x
  rw [central, mean_concat, momentAbout_concat, momentAbout_three_shift, momentAbout_one_mean, hx]
  unfold central
  ring

/-- of fourth powers, -/
theorem central_four_concat (xs : List K) (x : K) :
    central 4 (xs ++ [x]) =
      central 4 xs - 4 * meanStep xs x * central 3 xs + 6 * meanStep xs x ^ 2 * central 2 xs +
        xs.length * (xs.length + 1) * (xs.length ^ 2 - xs.length + 1) * meanStep xs x ^ 4 := by
  have hx : x - (mean xs + meanStep xs x) = xs.length * meanStep xs x := by
    linear_combination sub_mean xs x
  rw [central, mean_concat, momentAbout_concat, momentAbout_four_shift, momentAbout_one_mean, hx]
  unfold central
  ring

/-- and of products. -/
theorem coMoment_concat (ps : List (K × K)) (p : K × K) :
    coMoment (ps ++ [p]) =
      coMoment ps + ps.length * (ps.length + 1) *
        (meanStep (ps.map Prod.fst) p.1 * meanStep (ps.map Prod.snd) p.2) := by
  have hx : p.1 - (mean (ps.map Prod.fst) + meanStep (ps.map Prod.fst) p.1) =
      ps.length * meanStep (ps.map Prod.fst) p.1 := by
    have h := sub_mean (ps.map Prod.fst) p.1
    rw [List.length_map] at h
    linear_combination h
  have hy : p.2 - (mean (ps.map Prod.snd) + meanStep (ps.map Prod.snd) p.2) =
      ps.length * meanStep (ps.map Prod.snd) p.2 := by
    have h := sub_mean (ps.map Prod.snd) p.2
    rw [List.length_map] at h
    linear_combination h
  rw [coMoment, List.map_append, List.map_append, List.map_singleton, List.map_singleton,
    mean_concat, mean_concat, coMomentAbout_concat, coMomentAbout_shift, momentAbout_one_mean,
    momentAbout_one_mean, hx, hy]
  unfold coMoment
  ring

end StopTrading.CentralMoments
