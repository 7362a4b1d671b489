import Mathlib

/-!
# Paths through a trellis

A path visits one state at every time.  Its weight is a factor for its first state and one for
each of its moves, so there are exponentially many paths; both the heaviest of them and the sum
over all of them are computed one time after the other.

* `MaxProduct` — a table of the heaviest paths with their back pointers, as the recurrence
  fills it in.  `MaxProduct.le`: no path is heavier than its entry; `MaxProduct.eq`: the path
  that the back pointers describe has the weight of its entry.
* `pathSum` — the sum over all paths that end in a state.  `pathSum_succ` is its recurrence.

### What is load-bearing

`MaxProduct` has an upper bound for every entry and says that it is attained along the back
pointer; from these two the optimum follows by an induction forward (no path is heavier) and one
backward (the path along the pointers has the weight).  The recurrence multiplies weights, so the
step forward needs that factors are not negative: with a negative factor the heaviest path to a
state need not be an extension of a heaviest path.

For sums no order is needed.  The sum over all paths is over tuples of states, and its recurrence
is that a tuple is one shorter and a last state.
-/

namespace StopTrading.Trellis

open Finset

universe u

variable {K : Type u}

section Weight

variable [CommSemiring K]

/-- **The weight of a path** up to time `t`. -/
def pathWeight (first : Nat → K) (move : Nat → Nat → Nat → K) (p : Nat → Nat) (t : Nat) : K :=
  first (p 0) * ∏ i ∈ range t, move i (p i) (p (i + 1))

/-- A path that has not moved. -/
@[simp] theorem pathWeight_zero (first : Nat → K) (move : Nat → Nat → Nat → K) (p : Nat → Nat) :
    pathWeight first move p 0 = first (p 0) := by
  simp [pathWeight]

/-- One more move. -/
theorem pathWeight_succ (first : Nat → K) (move : Nat → Nat → Nat → K) (p : Nat → Nat) (t : Nat) :
    pathWeight first move p (t + 1) =
      pathWeight first move p t * move t (p t) (p (t + 1)) := by
  rw [pathWeight, pathWeight, prod_range_succ, mul_assoc]

/-- The weight of a path depends on the path so far. -/
theorem pathWeight_congr (first : Nat → K) (move : Nat → Nat → Nat → K) {p q : Nat → Nat} {t : Nat}
    (h : ∀ i ≤ t, p i = q i) : pathWeight first move p t = pathWeight first move q t := by
  unfold pathWeight
  rw [h 0 (Nat.zero_le t)]
  refine congrArg _ (prod_congr rfl fun i hi => ?_)
  rw [mem_range] at hi
  rw [h i (by omega), h (i + 1) (by omega)]

/-! ## The heaviest path -/

/-- **A table of heaviest paths** among states below `S`, filled in up to time `n`. -/
structure MaxProduct [LE K] (first : Nat → K) (move : Nat → Nat → Nat → K) (S n : Nat)
    (best : Nat → Nat → K) (back : Nat → Nat → Nat) : Prop where
  /-- the first column -/
  start : ∀ s < S, best 0 s = first s
  /-- pointers lead to states -/
  back_lt : ∀ t < n, ∀ s < S, back (t + 1) s < S
  /-- an entry is reached along its pointer -/
  attained : ∀ t < n, ∀ s < S,
    best (t + 1) s = best t (back (t + 1) s) * move t (back (t + 1) s) s
  /-- and no other predecessor does better -/
  upper : ∀ t < n, ∀ s < S, ∀ r < S, best t r * move t r s ≤ best (t + 1) s

variable {first : Nat → K} {move : Nat → Nat → Nat → K} {S n : Nat} {best : Nat → Nat → K}
  {back : Nat → Nat → Nat}

/-- A first column is a table. -/
theorem maxProduct_zero [LE K] (start : ∀ s < S, best 0 s = first s) :
    MaxProduct first move S 0 best back where
  start := start
  back_lt t ht := absurd ht (Nat.not_lt_zero t)
  attained t ht := absurd ht (Nat.not_lt_zero t)
  upper t ht := absurd ht (Nat.not_lt_zero t)

/-- **One column more**: the columns before it stay, and its entries are the greatest products with
an entry of the last one. -/
theorem MaxProduct.extend [LE K] (h : MaxProduct first move S n best back)
    {best' : Nat → Nat → K} {back' : Nat → Nat → Nat}
    (kept : ∀ t, t ≠ n + 1 → best' t = best t ∧ back' t = back t)
    (back_lt : ∀ s < S, back' (n + 1) s < S)
    (attained : ∀ s < S, best' (n + 1) s = best n (back' (n + 1) s) * move n (back' (n + 1) s) s)
    (upper : ∀ s < S, ∀ r < S, best n r * move n r s ≤ best' (n + 1) s) :
    MaxProduct first move S (n + 1) best' back' where
  start s hs := by
    rw [(kept 0 (Nat.succ_ne_zero n).symm).1]
    exact h.start s hs
  back_lt t ht s hs := by
    rcases Nat.lt_succ_iff_lt_or_eq.mp ht with ht | rfl
    · rw [(kept (t + 1) (by omega)).2]
      exact h.back_lt t ht s hs
    · exact back_lt s hs
  attained t ht s hs := by
    rw [(kept t (by omega)).1]
    rcases Nat.lt_succ_iff_lt_or_eq.mp ht with ht | rfl
    · rw [(kept (t + 1) (by omega)).1, (kept (t + 1) (by omega)).2]
      exact h.attained t ht s hs
    · exact attained s hs
  upper t ht s hs r hr := by
    rw [(kept t (by omega)).1]
    rcases Nat.lt_succ_iff_lt_or_eq.mp ht with ht | rfl
    · rw [(kept (t + 1) (by omega)).1]
      exact h.upper t ht s hs r hr
    · exact upper s hs r hr

/-- **No path is heavier** than the entry where it ends. -/
theorem MaxProduct.le [PartialOrder K] [IsOrderedRing K]
    (h : MaxProduct first move S n best back) (nonneg : ∀ t r s, 0 ≤ move t r s) {p : Nat → Nat} :
    ∀ {t : Nat}, t ≤ n → (∀ i ≤ t, p i < S) → pathWeight first move p t ≤ best t (p t) := by
  intro t
  induction t with
  | zero =>
      intro _ hp
      rw [pathWeight_zero, h.start _ (hp 0 le_rfl)]
  | succ t ih =>
      intro ht hp
      rw [pathWeight_succ]
      calc pathWeight first move p t * move t (p t) (p (t + 1))
          ≤ best t (p t) * move t (p t) (p (t + 1)) :=
            mul_le_mul_of_nonneg_right (ih (by omega) fun i hi => hp i (by omega)) (nonneg _ _ _)
        _ ≤ best (t + 1) (p (t + 1)) :=
            h.upper t (by omega) _ (hp _ le_rfl) _ (hp t (by omega))

/-- A path along the back pointers stays among the states. -/
theorem MaxProduct.path_lt [LE K] (h : MaxProduct first move S n best back) {p : Nat → Nat}
    {m : Nat} (hm : m ≤ n) (last : p m < S) (along : ∀ t < m, p t = back (t + 1) (p (t + 1))) :
    ∀ {k : Nat}, k ≤ m → p (m - k) < S := by
  intro k
  induction k with
  | zero => intro _; exact last
  | succ k ih =>
      intro hk
      have hnext := ih (by omega)
      rw [show m - k = m - (k + 1) + 1 by omega] at hnext
      rw [along _ (by omega)]
      exact h.back_lt _ (by omega) _ hnext

/-- **The path along the back pointers** has the weight of the entry where it ends. -/
theorem MaxProduct.eq [LE K] (h : MaxProduct first move S n best back) {p : Nat → Nat} {m : Nat}
    (hm : m ≤ n) (last : p m < S) (along : ∀ t < m, p t = back (t + 1) (p (t + 1))) :
    ∀ {t : Nat}, t ≤ m → pathWeight first move p t = best t (p t) := by
  have states : ∀ t ≤ m, p t < S := by
    intro t ht
    have := h.path_lt hm last along (k := m - t) (by omega)
    rwa [show m - (m - t) = t by omega] at this
  intro t
  induction t with
  | zero =>
      intro _
      rw [pathWeight_zero, h.start _ (states 0 (by omega))]
  | succ t ih =>
      intro ht
      rw [pathWeight_succ, ih (by omega), h.attained t (by omega) _ (states _ ht),
        ← along t (by omega)]

/-! ## The sum over all paths -/

/-- The weight of a path given as a tuple of states. -/
def tupleWeight (first : Nat → K) (move : Nat → Nat → Nat → K) {S t : Nat}
    (p : Fin (t + 1) → Fin S) : K :=
  first (p 0) * ∏ i : Fin t, move i (p i.castSucc) (p i.succ)

/-- **The sum over all paths** that are in state `s` at time `t`. -/
def pathSum (first : Nat → K) (move : Nat → Nat → Nat → K) (S t : Nat) (s : Fin S) : K :=
  ∑ p : Fin (t + 1) → Fin S, if p (Fin.last t) = s then tupleWeight first move p else 0

/-- The sums depend on the moves so far. -/
theorem pathSum_congr (first : Nat → K) {move move' : Nat → Nat → Nat → K} (S t : Nat)
    (h : ∀ i < t, move i = move' i) : pathSum first move S t = pathSum first move' S t := by
  funext s
  unfold pathSum tupleWeight
  refine sum_congr rfl fun p _ => ?_
  rw [prod_congr rfl fun i _ => by rw [h i i.isLt]]

/-- A tuple with one more state. -/
theorem tupleWeight_snoc (first : Nat → K) (move : Nat → Nat → Nat → K) {S t : Nat}
    (p : Fin (t + 1) → Fin S) (s : Fin S) :
    tupleWeight first move (Fin.snoc p s : Fin (t + 2) → Fin S) =
      tupleWeight first move p * move t (p (Fin.last t)) s := by
  have before : ∀ i : Fin (t + 1), (Fin.snoc p s : Fin (t + 2) → Fin S) i.castSucc = p i :=
    fun i => Fin.snoc_castSucc (α := fun _ => Fin S) s p i
  unfold tupleWeight
  rw [Fin.prod_univ_castSucc, ← mul_assoc]
  have zeroth : (Fin.snoc p s : Fin (t + 2) → Fin S) 0 = p 0 := before 0
  have last : (Fin.snoc p s : Fin (t + 2) → Fin S) (Fin.last t).succ = s :=
    Fin.snoc_last (α := fun _ => Fin S) s p
  rw [zeroth, before, last, Fin.val_last]
  congr 2
  refine prod_congr rfl fun i _ => ?_
  rw [before, Fin.succ_castSucc, before]
  rfl

/-- The only path to a state at first. -/
theorem pathSum_zero (first : Nat → K) (move : Nat → Nat → Nat → K) (S : Nat) (s : Fin S) :
    pathSum first move S 0 s = first s := by
  have hsum : pathSum first move S 0 s = ∑ r : Fin S, if r = s then first r else 0 := by
    refine Fintype.sum_equiv (Equiv.funUnique (Fin 1) (Fin S)) _ _ fun p => ?_
    simp [tupleWeight, Fin.default_eq_zero]
  rw [hsum, sum_ite_eq' univ s fun r => first r, if_pos (mem_univ s)]

/-- **The recurrence of the sums.** -/
theorem pathSum_succ (first : Nat → K) (move : Nat → Nat → Nat → K) (S t : Nat) (s : Fin S) :
    pathSum first move S (t + 1) s = ∑ r : Fin S, pathSum first move S t r * move t r s := by
  have split : pathSum first move S (t + 1) s =
      ∑ p : Fin (t + 1) → Fin S, tupleWeight first move p * move t (p (Fin.last t)) s := by
    unfold pathSum
    rw [← (Fin.snocEquiv fun _ => Fin S).sum_comp, Fintype.sum_prod_type, sum_comm]
    refine sum_congr rfl fun p _ => ?_
    have ends : ∀ r : Fin S,
        (if Fin.snocEquiv (fun _ => Fin S) (r, p) (Fin.last (t + 1)) = s
          then tupleWeight first move (Fin.snocEquiv (fun _ => Fin S) (r, p)) else 0) =
        if r = s then tupleWeight first move p * move t (p (Fin.last t)) r else 0 := by
      intro r
      show (if (Fin.snoc p r : Fin (t + 2) → Fin S) (Fin.last (t + 1)) = s
        then tupleWeight first move (Fin.snoc p r : Fin (t + 2) → Fin S) else 0) = _
      rw [Fin.snoc_last (α := fun _ => Fin S) r p, tupleWeight_snoc]
    rw [sum_congr rfl fun r _ => ends r, sum_ite_eq' univ s, if_pos (mem_univ s)]
  rw [split]
  simp only [pathSum, sum_mul]
  rw [sum_comm]
  refine sum_congr rfl fun p _ => ?_
  simp only [ite_mul, zero_mul]
  rw [sum_ite_eq univ (p (Fin.last t)), if_pos (mem_univ _)]

end Weight

end StopTrading.Trellis
