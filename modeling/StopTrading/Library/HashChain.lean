import Mathlib.Data.List.Basic
import Mathlib.Tactic.Common

/-!
# Chains of entries linked by digests

An entry names the digest of the entry before it (`prev`), carries a digest of its
own (`own`) and can be checked by itself (`valid`).  `verify` walks a list of entries
from the digest that the first of them has to name.

* `tip` — the digest that the next entry has to name.
* `verify_append`, `verify_concat` — a list verifies when its parts do, the second
  from the tip of the first.
* `verify_replace` — an entry that keeps its own digest can be replaced unnoticed
  exactly by one that is valid and names the same digest.
* `own_eq_start_of_tail` — a chain that loses its first entry verifies no longer,
  unless that entry's digest is the start.

### What a chain binds

Verification compares names with digests and never looks at two entries at once in any other way.
So it is exactly as strong as `valid`: `verify_replace` says that an entry whose digest is the
same and which is valid by itself goes unnoticed, whatever else changed in it.  Collision
resistance is not mentioned here; it belongs to the client whose digests are hashes of something,
and what they are hashes *of* is the question there.

`own_eq_start_of_tail` is for stores that forget their oldest entries.
-/

namespace StopTrading.HashChain

universe u v

variable {E : Type u} {H : Type v}

/-- The digest that the next entry has to name. -/
def tip (own : E → H) (start : H) (es : List E) : H := (es.getLast?.map own).getD start

/-- At first the start has to be named, -/
@[simp]
theorem tip_nil (own : E → H) (start : H) : tip own start [] = start := rfl

/-- later the digest of the last entry. -/
@[simp]
theorem tip_cons (own : E → H) (start : H) (e : E) (es : List E) :
    tip own start (e :: es) = tip own (own e) es := by
  cases es with
  | nil => rfl
  | cons e' es =>
      unfold tip
      rw [List.getLast?_cons_cons, List.getLast?_eq_some_getLast (List.cons_ne_nil e' es)]
      rfl

variable [DecidableEq H] (prev own : E → H) (valid : E → Bool)

/-- **Verification**: each entry names the digest before it and is valid. -/
def verify : H → List E → Bool
  | _, [] => true
  | expected, e :: es =>
      if prev e ≠ expected then false
      else if !valid e then false
      else verify (own e) es

variable {prev own valid}

/-- Nothing verifies. -/
@[simp]
theorem verify_nil (start : H) : verify prev own valid start [] = true := rfl

/-- The first entry, then the rest from its digest. -/
@[simp]
theorem verify_cons {start : H} {e : E} {es : List E} :
    verify prev own valid start (e :: es) = true ↔
      prev e = start ∧ valid e = true ∧ verify prev own valid (own e) es = true := by
  simp only [verify, ite_not, Bool.not_eq_true', Bool.ite_eq_true_distrib]
  split <;> simp_all

/-- **Lists verify part by part.** -/
theorem verify_append {start : H} {es es' : List E} :
    verify prev own valid start (es ++ es') = true ↔
      verify prev own valid start es = true ∧
        verify prev own valid (tip own start es) es' = true := by
  induction es generalizing start with
  | nil => simp
  | cons e es ih => simp only [List.cons_append, verify_cons, ih, tip_cons, and_assoc]

/-- One more entry. -/
theorem verify_concat {start : H} {es : List E} {e : E} :
    verify prev own valid start (es ++ [e]) = true ↔
      verify prev own valid start es = true ∧ prev e = tip own start es ∧ valid e = true := by
  rw [verify_append, verify_cons, verify_nil, eq_self, and_true]

/-- **What verification notices** of an entry replaced by one with the same digest. -/
theorem verify_replace {start : H} {before after : List E} {e e' : E}
    (hverify : verify prev own valid start (before ++ e :: after) = true)
    (hown : own e' = own e) :
    verify prev own valid start (before ++ e' :: after) = true ↔
      prev e' = prev e ∧ valid e' = true := by
  rw [verify_append, verify_cons] at hverify
  obtain ⟨hbefore, hprev, -, hafter⟩ := hverify
  rw [verify_append, verify_cons, hown, hprev]
  exact ⟨fun h => ⟨h.2.1, h.2.2.1⟩, fun h => ⟨hbefore, h.1, h.2, hafter⟩⟩

/-- **A chain cannot lose its first entry** and still verify from where it started. -/
theorem own_eq_start_of_tail {start : H} {e e' : E} {es : List E}
    (hverify : verify prev own valid start (e :: e' :: es) = true)
    (htail : verify prev own valid start (e' :: es) = true) : own e = start := by
  rw [verify_cons, verify_cons] at hverify
  rw [verify_cons] at htail
  rw [← hverify.2.2.1, htail.1]

end StopTrading.HashChain
