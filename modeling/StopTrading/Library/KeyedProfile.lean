import Mathlib.Data.List.AList
import Mathlib.Data.Finsupp.Basic
import Mathlib.Algebra.Order.BigOperators.Group.Finset
import Mathlib.Tactic.Common

/-!
# Finite maps as finitely supported functions

An ordered map of amounts is read two ways: entry by entry, adding up those whose key
passes a test (`sumWhere`, which code does), and as the function that gives every key
its amount, zero where there is no entry (`profile`).  The second forgets what the map
is made of, so two maps of different values are compared there: `sumWhere_eq_mass`
says that a sum depends on the profile only.

* `mass w p` — what a finitely supported function puts on the keys with `p`.
* `mass_le_of_imp`, `mass_le_of_le` — monotone in the test and in the amounts.
* `eq_of_le_of_whole_le` — a profile below another one with no less in all is it.

### What is load-bearing

An order book keeps its levels in a map of records, with empty levels perhaps among them.  Two
books agree for every purpose of matching if they offer the same amounts at the same prices; as
maps they may differ.  `profile` is the quotient, and `sumWhere_eq_mass` is the theorem that lets
a proof forget the map.  `AList` is used because it carries that its keys are distinct, without
which the sum over entries would count a price twice.

The order structure on amounts is that of natural numbers: ordered, canonically, and with
cancellation where equality is to follow from equal totals.
-/

namespace StopTrading.KeyedProfile

universe u v w

variable {K : Type u} {V : Type v} {M : Type w}

/-! ## The mass of a set of keys -/

section Mass

variable [AddCommMonoid M]

/-- What `w` puts on the keys with `p`. -/
def mass (w : K →₀ M) (p : K → Prop) [DecidablePred p] : M := ∑ k ∈ w.support with p k, w k

/-- What `w` puts on all keys. -/
def whole (w : K →₀ M) : M := ∑ k ∈ w.support, w k

/-- Only the keys with something on them count. -/
theorem mass_congr {w : K →₀ M} {p q : K → Prop} [DecidablePred p] [DecidablePred q]
    (h : ∀ k ∈ w.support, p k ↔ q k) : mass w p = mass w q := by
  unfold mass
  rw [Finset.filter_congr h]

/-- A test that all of them pass. -/
theorem mass_eq_whole {w : K →₀ M} {p : K → Prop} [DecidablePred p]
    (h : ∀ k ∈ w.support, p k) : mass w p = whole w := by
  unfold mass whole
  rw [Finset.filter_true_of_mem h]

/-- The whole is the mass of all keys. -/
theorem whole_eq_mass (w : K →₀ M) : whole w = mass w fun _ => True :=
  (mass_eq_whole fun _ _ => trivial).symm

/-- Any set of keys with the support among them gives the mass. -/
theorem mass_eq_sum {w : K →₀ M} {s : Finset K} (h : w.support ⊆ s) (p : K → Prop)
    [DecidablePred p] : mass w p = ∑ k ∈ s with p k, w k := by
  apply Finset.sum_subset (Finset.filter_subset_filter p h)
  intro k hk hnot
  rw [Finset.mem_filter] at hk hnot
  exact Finsupp.notMem_support_iff.mp fun hmem => hnot ⟨hmem, hk.2⟩

/-- Where there is mass there is a key. -/
theorem exists_of_mass_ne_zero {w : K →₀ M} {p : K → Prop} [DecidablePred p]
    (h : mass w p ≠ 0) : ∃ k ∈ w.support, p k := by
  obtain ⟨k, hk, -⟩ := Finset.exists_ne_zero_of_sum_ne_zero h
  exact ⟨k, Finset.mem_filter.mp hk⟩

variable [PartialOrder M] [CanonicallyOrderedAdd M]

/-- **A weaker test takes in more.** -/
theorem mass_le_of_imp {w : K →₀ M} {p q : K → Prop} [DecidablePred p] [DecidablePred q]
    (h : ∀ k ∈ w.support, p k → q k) : mass w p ≤ mass w q := by
  apply Finset.sum_le_sum_of_subset
  intro k hk
  rw [Finset.mem_filter] at hk ⊢
  exact ⟨hk.1, h k hk.1 hk.2⟩

/-- A part is no more than the whole. -/
theorem mass_le_whole (w : K →₀ M) (p : K → Prop) [DecidablePred p] : mass w p ≤ whole w :=
  Finset.sum_le_sum_of_subset (Finset.filter_subset p w.support)

/-- Less everywhere, and on no more keys. -/
theorem support_subset_of_le {w w' : K →₀ M} (h : ∀ k, w k ≤ w' k) : w.support ⊆ w'.support := by
  intro k hk
  rw [Finsupp.mem_support_iff] at hk ⊢
  intro hzero
  exact hk (nonpos_iff_eq_zero.mp (hzero ▸ h k))

/-- **Less everywhere is less mass.** -/
theorem mass_le_of_le [IsOrderedAddMonoid M] {w w' : K →₀ M} (h : ∀ k, w k ≤ w' k)
    (p : K → Prop) [DecidablePred p] :
    mass w p ≤ mass w' p := by
  rw [mass_eq_sum (support_subset_of_le h)]
  exact Finset.sum_le_sum fun k _ => h k

end Mass

section Cancel

variable [AddCommMonoid M] [PartialOrder M] [IsOrderedCancelAddMonoid M] [CanonicallyOrderedAdd M]

/-- A key outside the test leaves less than the whole. -/
theorem mass_lt_whole {w : K →₀ M} {p : K → Prop} [DecidablePred p] {k : K}
    (hk : k ∈ w.support) (hp : ¬ p k) : mass w p < whole w := by
  apply Finset.sum_lt_sum_of_subset (Finset.filter_subset p w.support) hk
  · exact fun hmem => hp (Finset.mem_filter.mp hmem).2
  · exact pos_iff_ne_zero.mpr (Finsupp.mem_support_iff.mp hk)
  · exact fun _ _ _ => zero_le

/-- **A profile below another one with no less in all** is the same profile. -/
theorem eq_of_le_of_whole_le {w w' : K →₀ M} (h : ∀ k, w k ≤ w' k)
    (hwhole : whole w' ≤ whole w) : w = w' := by
  have hsub := support_subset_of_le h
  have hsum : whole w = ∑ k ∈ w'.support, w k := by
    rw [whole_eq_mass, mass_eq_sum hsub, Finset.filter_true]
  have hle : ∑ k ∈ w'.support, w k ≤ whole w' := Finset.sum_le_sum fun k _ => h k
  have heq : ∑ k ∈ w'.support, w k = ∑ k ∈ w'.support, w' k :=
    le_antisymm hle (hsum ▸ hwhole)
  rw [Finset.sum_eq_sum_iff_of_le fun k _ => h k] at heq
  ext k
  by_cases hk : k ∈ w'.support
  · exact heq k hk
  · rw [Finsupp.notMem_support_iff.mp hk, Finsupp.notMem_support_iff.mp fun hmem => hk (hsub hmem)]

end Cancel

/-! ## The profile of a finite map -/

section Profile

variable [DecidableEq K] [AddCommMonoid M]

/-- The amount of a key: `f` of its entry, zero without one. -/
def amount (f : V → M) (m : AList fun _ : K => V) (k : K) : M := (m.lookup k).elim 0 f

/-- An amount comes from an entry. -/
theorem mem_keys_of_amount_ne_zero {f : V → M} {m : AList fun _ : K => V} {k : K}
    (h : amount f m k ≠ 0) : k ∈ m.keys := by
  by_contra hmem
  apply h
  rw [amount, AList.lookup_eq_none.mpr hmem]
  rfl

/-- The map as a function with finite support. -/
noncomputable def profile (f : V → M) (m : AList fun _ : K => V) : K →₀ M :=
  Finsupp.onFinset m.keys.toFinset (amount f m) fun _ hk =>
    List.mem_toFinset.mpr (mem_keys_of_amount_ne_zero hk)

/-- The amount of a key. -/
@[simp]
theorem profile_apply (f : V → M) (m : AList fun _ : K => V) (k : K) :
    profile f m k = amount f m k := rfl

/-- Add up the entries whose key passes a test. -/
def sumWhere (p : K → Bool) (f : V → M) (m : AList fun _ : K => V) : M :=
  ((m.entries.filter fun e => p e.1).map fun e => f e.2).sum

/-- **The sum over the entries depends on the profile only.** -/
theorem sumWhere_eq_mass (p : K → Bool) (f : V → M) (m : AList fun _ : K => V) :
    sumWhere p f m = mass (profile f m) fun k => p k = true := by
  have hsub : (profile f m).support ⊆ m.keys.toFinset := Finsupp.support_onFinset_subset
  have hkeys : (m.entries.filter fun e => p e.1).map Sigma.fst = m.keys.filter p := by
    rw [AList.keys, List.keys, List.filter_map]
    rfl
  rw [mass_eq_sum hsub, ← List.toFinset_filter, List.sum_toFinset _ (m.keys_nodup.filter p),
    ← hkeys, List.map_map, sumWhere]
  congr 1
  apply List.map_congr_left
  intro e he
  have hlookup : m.lookup e.1 = some e.2 := AList.mem_lookup_iff.mpr (List.mem_of_mem_filter he)
  simp only [Function.comp_apply, profile_apply, amount, hlookup, Option.elim_some]

/-- The sum over all entries. -/
theorem sum_eq_whole (f : V → M) (m : AList fun _ : K => V) :
    (m.entries.map fun e => f e.2).sum = whole (profile f m) := by
  have h := sumWhere_eq_mass (fun _ => true) f m
  rw [mass_eq_whole fun _ _ => rfl] at h
  rw [← h, sumWhere, List.filter_true]

end Profile

end StopTrading.KeyedProfile
