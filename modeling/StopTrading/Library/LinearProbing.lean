import Mathlib.Data.Fin.Basic
import Mathlib.Data.Fintype.Card
import Mathlib.Data.Finset.Card
import Mathlib.Data.Nat.ModEq
import Mathlib.Logic.Function.Basic
import Mathlib.Tactic.Common

/-!
# Linear probing

An open-addressing table is a function from the slots to what they hold, and a key is
looked for from its home slot on, cyclically, until a slot is empty or holds the key.

`Lawful` is the invariant of such a table: a key is in one slot, and no slot between its
home and that slot is empty.  Under it the first slot that stops the search for a key is
the slot of the key, or there is none (`Lawful.first_stop`, `Lawful.stops_iff_of_absent`).
Writing a key to the first empty slot of its search, writing a new value and deleting keep
it.

### What is load-bearing

The two clauses of `Lawful` need each other.  Keys are found because no empty slot lies between
home and slot (`chained`); they are found *uniquely* because they are in one slot (`distinct`).
Deletion must therefore leave a mark that does not stop a search: `deleted` is not `empty`.  A
table that reused deleted slots would have to look on for the key first, which is why `claim`
writes to the first *empty* slot.

Nothing is assumed about the hash: `home` is any function.  All results are about the order in
which one search visits the slots, and `probe_inj` is where the size of the table comes in.
-/

namespace StopTrading.LinearProbing

universe u v

/-- What a slot holds. -/
inductive Slot (K : Type u) (V : Type v) where
  /-- never used, so that a search may stop -/
  | empty
  /-- used before; a search goes on -/
  | deleted
  /-- a key and its value -/
  | occupied (k : K) (v : V)

variable {K : Type u} {V : Type v} {n : Nat} [NeZero n]

/-! ## The order of the search -/

/-- The slot that is looked at after `i` others. -/
def probe (start : Fin n) (i : Nat) : Fin n := start + Fin.ofNat n i

/-- The slot by its number. -/
theorem val_probe (start : Fin n) (i : Nat) : (probe start i).val = (start.val + i) % n := by
  rw [probe, Fin.val_add, Fin.val_ofNat, Nat.add_mod_mod]

/-- A search begins at home, -/
@[simp]
theorem probe_zero (start : Fin n) : probe start 0 = start := by
  apply Fin.ext
  rw [val_probe, Nat.add_zero, Nat.mod_eq_of_lt start.isLt]

/-- and goes on to the next slot, cyclically. -/
theorem probe_succ (start : Fin n) (i : Nat) : probe start (i + 1) = probe start i + 1 := by
  apply Fin.ext
  rw [val_probe, Fin.val_add, val_probe, Fin.val_one', Nat.add_mod_mod, Nat.mod_add_mod,
    Nat.add_assoc]

/-- The search is back at its start after all slots. -/
theorem probe_self (start : Fin n) : probe start n = start := by
  apply Fin.ext
  rw [val_probe, Nat.add_mod_right, Nat.mod_eq_of_lt start.isLt]

/-- The search comes to every slot. -/
theorem exists_probe (start idx : Fin n) : ∃ i < n, probe start i = idx := by
  have hstart := start.isLt
  have hidx := idx.isLt
  by_cases hle : start.val ≤ idx.val
  · refine ⟨idx.val - start.val, by omega, Fin.ext ?_⟩
    rw [val_probe, Nat.mod_eq_of_lt (by omega)]
    omega
  · refine ⟨n - start.val + idx.val, by omega, Fin.ext ?_⟩
    rw [val_probe, show start.val + (n - start.val + idx.val) = idx.val + n by omega,
      Nat.add_mod_right, Nat.mod_eq_of_lt hidx]

/-- The search comes to every slot once. -/
theorem probe_inj {start : Fin n} {i j : Nat} (hi : i < n) (hj : j < n)
    (h : probe start i = probe start j) : i = j := by
  have hval := congrArg Fin.val h
  rw [val_probe, val_probe] at hval
  have hmod : i % n = j % n := Nat.ModEq.add_left_cancel' start.val hval
  rwa [Nat.mod_eq_of_lt hi, Nat.mod_eq_of_lt hj] at hmod

/-- The search is not back at its start before all slots. -/
theorem probe_ne_start {start : Fin n} {i : Nat} (hpos : 0 < i) (hi : i < n) :
    probe start i ≠ start := by
  intro h
  have hzero := probe_inj hi (by omega : 0 < n) (h.trans (probe_zero start).symm)
  omega

/-- A search stops somewhere first, or nowhere. -/
theorem first_or_none (p : Nat → Prop) (n : Nat) :
    (∃ i < n, p i ∧ ∀ j < i, ¬ p j) ∨ ∀ i < n, ¬ p i := by
  classical
  by_cases h : ∃ i, i < n ∧ p i
  · have hspec := Nat.find_spec h
    refine .inl ⟨Nat.find h, hspec.1, hspec.2, fun j hj hp => ?_⟩
    exact Nat.find_min h hj ⟨hj.trans hspec.1, hp⟩
  · exact .inr fun i hi hp => h ⟨i, hi, hp⟩

/-! ## Tables -/

/-- A slot stops the search for a key: it is empty or holds the key. -/
def Stops (k : K) (s : Slot K V) : Prop := s = .empty ∨ ∃ v, s = .occupied k v

/-- A deleted slot stops no search. -/
theorem not_stops_deleted {k : K} : ¬ Stops k (.deleted : Slot K V) := by
  rintro (h | ⟨_, h⟩) <;> cases h

/-- A table holds a value for a key. -/
def Holds (slots : Fin n → Slot K V) (k : K) (v : V) : Prop := ∃ idx, slots idx = .occupied k v

/-- **A table is lawful**: keys are in one slot each, reachable from their homes. -/
structure Lawful (home : K → Fin n) (slots : Fin n → Slot K V) : Prop where
  /-- a key is in one slot -/
  distinct : ∀ {idx idx' k v v'}, slots idx = .occupied k v → slots idx' = .occupied k v' →
    idx = idx'
  /-- a search for it does not stop before that slot -/
  chained : ∀ {i k v}, i < n → slots (probe (home k) i) = .occupied k v →
    ∀ j < i, slots (probe (home k) j) ≠ .empty

variable {home : K → Fin n} {slots : Fin n → Slot K V}

/-- An empty table is lawful. -/
theorem lawful_empty (home : K → Fin n) : Lawful home fun _ => (.empty : Slot K V) :=
  ⟨nofun, nofun⟩

namespace Lawful

/-- **The search for a key** stops first at the slot of the key. -/
theorem first_stop (h : Lawful home slots) {k : K} {v : V} (hv : Holds slots k v) :
    ∃ i < n, slots (probe (home k) i) = .occupied k v ∧
      ∀ j < i, ¬ Stops k (slots (probe (home k) j)) := by
  obtain ⟨idx, hidx⟩ := hv
  obtain ⟨i, hi, rfl⟩ := exists_probe (home k) idx
  refine ⟨i, hi, hidx, fun j hj hstops => ?_⟩
  rcases hstops with hempty | ⟨v', hoccupied⟩
  · exact h.chained hi hidx j hj hempty
  · have hsame := probe_inj (hj.trans hi) hi (h.distinct hoccupied hidx)
    omega

/-- **Writing a new key** to the first empty slot of its search. -/
theorem claim (h : Lawful home slots) {k : K} {i : Nat} (hi : i < n)
    (hfirst : ∀ j < i, slots (probe (home k) j) ≠ .empty)
    (habsent : ∀ v, ¬ Holds slots k v) (v : V) :
    Lawful home (Function.update slots (probe (home k) i) (.occupied k v)) := by
  refine ⟨fun {idx idx' k₁ v₁ v₂} h₁ h₂ => ?_, fun {i' k₁ v₁} hi' h₁ j hj => ?_⟩
  · by_cases hidx : idx = probe (home k) i <;> by_cases hidx' : idx' = probe (home k) i
    · rw [hidx, hidx']
    · rw [hidx, Function.update_self] at h₁
      rw [Function.update_of_ne hidx'] at h₂
      cases h₁
      exact absurd ⟨idx', h₂⟩ (habsent v₂)
    · rw [Function.update_of_ne hidx] at h₁
      rw [hidx', Function.update_self] at h₂
      cases h₂
      exact absurd ⟨idx, h₁⟩ (habsent v₁)
    · rw [Function.update_of_ne hidx] at h₁
      rw [Function.update_of_ne hidx'] at h₂
      exact h.distinct h₁ h₂
  · by_cases hat : probe (home k₁) j = probe (home k) i
    · rw [hat, Function.update_self]
      nofun
    · rw [Function.update_of_ne hat]
      by_cases hslot : probe (home k₁) i' = probe (home k) i
      · rw [hslot, Function.update_self] at h₁
        cases h₁
        rw [probe_inj hi' hi hslot] at hj
        exact hfirst j hj
      · rw [Function.update_of_ne hslot] at h₁
        exact h.chained hi' h₁ j hj

/-- **Writing another slot** keeps a table lawful, if the slot was not empty and gets no new
key. -/
theorem rewrite (h : Lawful home slots) {idx : Fin n} {k : K} {v : V}
    (hold : slots idx = .occupied k v) {s : Slot K V}
    (hs : s = .deleted ∨ ∃ v', s = .occupied k v') :
    Lawful home (Function.update slots idx s) := by
  -- Whatever the new table has in a slot, the old one had with the same key.
  have hback : ∀ {idx' k₁ v₁}, Function.update slots idx s idx' = .occupied k₁ v₁ →
      ∃ v₂, slots idx' = .occupied k₁ v₂ := by
    intro idx' k₁ v₁ h₁
    by_cases hidx : idx' = idx
    · subst hidx
      rw [Function.update_self] at h₁
      rcases hs with rfl | ⟨v', rfl⟩
      · cases h₁
      · cases h₁
        exact ⟨v, hold⟩
    · rw [Function.update_of_ne hidx] at h₁
      exact ⟨v₁, h₁⟩
  refine ⟨fun h₁ h₂ => ?_, fun {i k₁ v₁} hi h₁ j hj => ?_⟩
  · obtain ⟨w₁, hw₁⟩ := hback h₁
    obtain ⟨w₂, hw₂⟩ := hback h₂
    exact h.distinct hw₁ hw₂
  · obtain ⟨w₁, hw₁⟩ := hback h₁
    by_cases hat : probe (home k₁) j = idx
    · rw [hat, Function.update_self]
      rcases hs with rfl | ⟨v', rfl⟩ <;> nofun
    · rw [Function.update_of_ne hat]
      exact h.chained hi hw₁ j hj

/-- **A table full of keys** has as many keys as slots. -/
theorem card_le_of_full (h : Lawful home slots) (hfull : ∀ idx, ∃ k v, slots idx = .occupied k v)
    {keys : List K} (hkeys : ∀ k v, Holds slots k v → k ∈ keys) : n ≤ keys.length := by
  classical
  choose key value hslot using hfull
  have hinj : Function.Injective key := fun idx idx' hsame => by
    have hidx' := hslot idx'
    rw [← hsame] at hidx'
    exact h.distinct (hslot idx) hidx'
  calc n = (Finset.univ.image key).card := by
        rw [Finset.card_image_of_injective _ hinj, Finset.card_univ, Fintype.card_fin]
    _ ≤ keys.toFinset.card := Finset.card_le_card fun k hk => by
        obtain ⟨idx, -, rfl⟩ := Finset.mem_image.mp hk
        exact List.mem_toFinset.mpr (hkeys _ _ ⟨idx, hslot idx⟩)
    _ ≤ keys.length := keys.toFinset_card_le

end Lawful

omit [NeZero n] in
/-- A key that is not held is stopped by empty slots only. -/
theorem stops_iff_of_absent {k : K} (habsent : ∀ v, ¬ Holds slots k v) (idx : Fin n) :
    Stops k (slots idx) ↔ slots idx = .empty := by
  constructor
  · rintro (hempty | ⟨v, hoccupied⟩)
    · exact hempty
    · exact absurd ⟨idx, hoccupied⟩ (habsent v)
  · exact .inl

omit [NeZero n] in
/-- **What a table holds after a key has been written** to a slot, if no other key was there
and the key was nowhere else. -/
theorem holds_write {idx : Fin n} {k : K} (hthere : ∀ k' v', slots idx = .occupied k' v' → k' = k)
    (honly : ∀ idx' v', slots idx' = .occupied k v' → idx' = idx) (w : V) (k' : K) (v' : V) :
    Holds (Function.update slots idx (.occupied k w)) k' v' ↔
      (k' = k ∧ v' = w) ∨ (k' ≠ k ∧ Holds slots k' v') := by
  constructor
  · rintro ⟨idx', h⟩
    by_cases hsame : idx' = idx
    · rw [hsame, Function.update_self] at h
      cases h
      exact .inl ⟨rfl, rfl⟩
    · rw [Function.update_of_ne hsame] at h
      refine .inr ⟨?_, idx', h⟩
      rintro rfl
      exact hsame (honly idx' v' h)
  · rintro (⟨rfl, rfl⟩ | ⟨hne, idx', h⟩)
    · exact ⟨idx, Function.update_self ..⟩
    · refine ⟨idx', ?_⟩
      rw [Function.update_of_ne, h]
      rintro rfl
      exact hne (hthere k' v' h)

/-- What a lawful table holds after a key has been deleted. -/
theorem holds_delete (h : Lawful home slots) {idx : Fin n} {k : K} {v : V}
    (hidx : slots idx = .occupied k v) (k' : K) (v' : V) :
    Holds (Function.update slots idx .deleted) k' v' ↔ k' ≠ k ∧ Holds slots k' v' := by
  constructor
  · rintro ⟨idx', h'⟩
    by_cases hsame : idx' = idx
    · rw [hsame, Function.update_self] at h'
      cases h'
    · rw [Function.update_of_ne hsame] at h'
      refine ⟨?_, idx', h'⟩
      rintro rfl
      exact hsame (h.distinct h' hidx)
  · rintro ⟨hne, idx', h'⟩
    refine ⟨idx', ?_⟩
    rw [Function.update_of_ne, h']
    rintro rfl
    rw [hidx] at h'
    cases h'
    exact hne rfl

end StopTrading.LinearProbing
