import Mathlib.Algebra.BigOperators.Group.Finset.Basic
import Mathlib.Algebra.BigOperators.Intervals
import Mathlib.Algebra.BigOperators.Ring.Finset
import Mathlib.Tactic.Common

/-!
# Counted loops

`forEach body lo n s` runs a body for the indices `lo, …, lo + n - 1`, and `forRange` is the
same for a body that may leave the loop with an error.  `sumFrom` is the loop that adds up.

* `forEach_invariant`, `forRange_ok` — an invariant indexed by the loop's counter.
* `forRange_error` — where a loop left with an error, it did so in a body that started from
  the invariant.
* `forRange_total` — a loop whose bodies all succeed succeeds.
* `sumFrom_eq` — the running sum is the sum.

`setAt` stores one entry of a family with two indices.

### Why the counter is in the invariant

A loop over an array is proved by saying what has become of the entries before the counter and
that the others are untouched.  So the rules take an invariant `Inv i s` with the counter as an
argument, and hand it the bounds of the counter; the body of a loop never has to be unfolded with
the loop. Loops that count down are written with `n - 1 - i`.
-/

namespace StopTrading.CountedLoop

universe u v

variable {σ : Type u} {ε : Type v}

/-- `for i in lo..lo + n { body }`. -/
def forEach (body : Nat → σ → σ) : Nat → Nat → σ → σ
  | _, 0, s => s
  | lo, n + 1, s => forEach body (lo + 1) n (body lo s)

/-- The same, where the body may return from the function. -/
def forRange (body : Nat → σ → Except ε σ) : Nat → Nat → σ → Except ε σ
  | _, 0, s => .ok s
  | lo, n + 1, s => (body lo s).bind fun s' => forRange body (lo + 1) n s'

/-- **An invariant of a loop**, by its counter. -/
theorem forEach_invariant (Inv : Nat → σ → Prop) {body : Nat → σ → σ} {n : Nat} :
    ∀ {lo : Nat} {s : σ}, (∀ i s, lo ≤ i → i < lo + n → Inv i s → Inv (i + 1) (body i s)) →
      Inv lo s → Inv (lo + n) (forEach body lo n s) := by
  induction n with
  | zero => intro lo s _ inv; exact inv
  | succ n ih =>
      intro lo s keep inv
      rw [show lo + (n + 1) = lo + 1 + n by omega]
      refine ih (fun i s hlo hhi => keep i s ?_ ?_) (keep lo s le_rfl (by omega) inv) <;> omega

/-- An invariant of a loop with early returns. -/
theorem forRange_ok {body : Nat → σ → Except ε σ} {Inv : Nat → σ → Prop} {n : Nat} :
    ∀ {lo : Nat} {s s' : σ},
      (∀ i s s', lo ≤ i → i < lo + n → Inv i s → body i s = .ok s' → Inv (i + 1) s') →
      Inv lo s → forRange body lo n s = .ok s' → Inv (lo + n) s' := by
  induction n with
  | zero =>
      intro lo s s' _ inv h
      cases h
      exact inv
  | succ n ih =>
      intro lo s s' keep inv h
      rw [forRange] at h
      cases hbody : body lo s with
      | error e => rw [hbody] at h; cases h
      | ok m =>
          rw [hbody] at h
          rw [show lo + (n + 1) = lo + 1 + n by omega]
          refine ih (fun i s s' hlo hhi => keep i s s' ?_ ?_)
            (keep lo s m le_rfl (by omega) inv hbody) h <;> omega

/-- **Where a loop returned early**: in a body that started from the invariant. -/
theorem forRange_error {body : Nat → σ → Except ε σ} {Inv : Nat → σ → Prop} {e : ε} {n : Nat} :
    ∀ {lo : Nat} {s : σ},
      (∀ i s s', lo ≤ i → i < lo + n → Inv i s → body i s = .ok s' → Inv (i + 1) s') →
      Inv lo s → forRange body lo n s = .error e →
      ∃ i s, lo ≤ i ∧ i < lo + n ∧ Inv i s ∧ body i s = .error e := by
  induction n with
  | zero => intro lo s _ _ h; cases h
  | succ n ih =>
      intro lo s keep inv h
      rw [forRange] at h
      cases hbody : body lo s with
      | error e' =>
          rw [hbody] at h
          cases h
          exact ⟨lo, s, le_rfl, by omega, inv, hbody⟩
      | ok m =>
          rw [hbody] at h
          obtain ⟨i, t, hlo, hhi, hinv, herr⟩ :=
            ih (fun i s s' hlo hhi => keep i s s' (by omega) (by omega))
              (keep lo s m le_rfl (by omega) inv hbody) h
          exact ⟨i, t, by omega, by omega, hinv, herr⟩

/-- **A loop whose bodies succeed** succeeds. -/
theorem forRange_total (Inv : Nat → σ → Prop) {body : Nat → σ → Except ε σ} {n lo : Nat} {s : σ}
    (keep : ∀ i s, lo ≤ i → i < lo + n → Inv i s → ∃ s', body i s = .ok s' ∧ Inv (i + 1) s')
    (inv : Inv lo s) : ∃ s', forRange body lo n s = .ok s' ∧ Inv (lo + n) s' := by
  have keep' : ∀ i s s', lo ≤ i → i < lo + n → Inv i s → body i s = .ok s' →
      Inv (i + 1) s' := by
    intro i s s' hlo hhi hinv hbody
    obtain ⟨t, ht, hinv'⟩ := keep i s hlo hhi hinv
    obtain rfl : t = s' := Except.ok.inj (ht.symm.trans hbody)
    exact hinv'
  cases h : forRange body lo n s with
  | ok s' => exact ⟨s', rfl, forRange_ok keep' inv h⟩
  | error e =>
      obtain ⟨i, t, hlo, hhi, hinv, herr⟩ := forRange_error keep' inv h
      obtain ⟨t', ht', -⟩ := keep i t hlo hhi hinv
      rw [herr] at ht'
      cases ht'

/-! ## Running sums -/

section Sum

variable {M : Type u} [AddCommMonoid M]

/-- `let mut sum = 0; for k in lo..lo + n { sum += f(k) }`. -/
def sumFrom (f : Nat → M) (lo n : Nat) : M := forEach (fun k sum => sum + f k) lo n 0

/-- **The running sum is the sum.** -/
theorem sumFrom_eq (f : Nat → M) (lo n : Nat) :
    sumFrom f lo n = ∑ k ∈ Finset.Ico lo (lo + n), f k := by
  refine forEach_invariant (fun i sum => sum = ∑ k ∈ Finset.Ico lo i, f k) ?_ ?_
  · intro i sum hlo _ hsum
    rw [hsum, Finset.sum_Ico_succ_top hlo]
  · simp

/-- From zero on, over a range. -/
theorem sumFrom_zero_eq (f : Nat → M) (n : Nat) :
    sumFrom f 0 n = ∑ k ∈ Finset.range n, f k := by
  rw [sumFrom_eq, Nat.zero_add, Finset.range_eq_Ico]

end Sum

/-! ## Families with two indices -/

variable {α : Type u}

/-- `l[i][j] = v`. -/
def setAt (l : Nat → Nat → α) (i j : Nat) (v : α) : Nat → Nat → α :=
  Function.update l i (Function.update (l i) j v)

/-- What was stored is there, -/
@[simp] theorem setAt_self (l : Nat → Nat → α) (i j : Nat) (v : α) : setAt l i j v i j = v := by
  simp [setAt]

/-- other rows are as they were, -/
theorem setAt_row_ne (l : Nat → Nat → α) {i a : Nat} (j : Nat) (v : α) (h : a ≠ i) :
    setAt l i j v a = l a := by
  simp [setAt, h]

/-- and so are other columns. -/
theorem setAt_col_ne (l : Nat → Nat → α) {j b : Nat} (i a : Nat) (v : α) (h : b ≠ j) :
    setAt l i j v a b = l a b := by
  by_cases ha : a = i
  · subst ha
    simp [setAt, h]
  · rw [setAt_row_ne l j v ha]

end StopTrading.CountedLoop
