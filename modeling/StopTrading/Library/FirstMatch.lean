import Mathlib.Data.List.Basic
import Mathlib.Tactic.Common

/-!
# The first entry with a key

Small tables are kept as plain lists that are searched from the front: the first
entry whose key is the one wanted is read (`find`) or replaced (`modify`), and a
later entry with the same key is never seen.  Nothing makes the keys distinct, so
what is said here about `modify` holds with duplicates too.

* `find_modify_self`, `find_modify_of_ne` — what is read after a replacement.
* `mem_modify` — an entry after a replacement is an old one or the replaced first.
* `keys_modify` — the keys stay.
* `Shadowed` — what is true of entries only as long as they are the first with their
  key.
* `find_map`, `modify_map`, `eraseP_map` — the same in the image of a table whose keys are
  kept.

### Duplicates

A table that appends on insertion holds stale entries behind the current ones.  They matter as
soon as the first entry is deleted, and they are in every walk over the whole table.  So keys are
nowhere assumed to be distinct.  `Shadowed` is the weaker property that such programs rely on: an
entry in a certain condition is the first with its key.
-/

namespace StopTrading.FirstMatch

universe u v

variable {α : Type u} {K : Type v} [DecidableEq K] {key : α → K}

/-- The first entry with a key. -/
def find (key : α → K) (k : K) (l : List α) : Option α := l.find? fun x => key x = k

/-- Replace the first entry with a key. -/
def modify (key : α → K) (k : K) (g : α → α) (l : List α) : List α :=
  l.replaceF fun x => if key x = k then some (g x) else none

/-- The first entry is found, if it has the key. -/
theorem find_cons_self {x : α} {l : List α} {k : K} (h : key x = k) :
    find key k (x :: l) = some x :=
  List.find?_cons_of_pos (decide_eq_true h)

/-- Otherwise what is found behind it. -/
theorem find_cons_of_ne {x : α} {l : List α} {k : K} (h : key x ≠ k) :
    find key k (x :: l) = find key k l :=
  List.find?_cons_of_neg (by simpa using h)

/-- The first entry is replaced, if it has the key. -/
theorem modify_cons_self {g : α → α} {x : α} {l : List α} {k : K} (h : key x = k) :
    modify key k g (x :: l) = g x :: l :=
  List.replaceF_cons_of_some _ (if_pos h)

/-- Otherwise one behind it. -/
theorem modify_cons_of_ne {g : α → α} {x : α} {l : List α} {k : K} (h : key x ≠ k) :
    modify key k g (x :: l) = x :: modify key k g l :=
  List.replaceF_cons_of_none _ (if_neg h)

/-- What is found has the key, -/
theorem key_of_find {k : K} {l : List α} {x : α} (h : find key k l = some x) : key x = k := by
  simpa using List.find?_some h

/-- and is an entry. -/
theorem mem_of_find {k : K} {l : List α} {x : α} (h : find key k l = some x) : x ∈ l :=
  List.mem_of_find?_eq_some h

/-- A key is found just when an entry has it. -/
theorem find_eq_none_iff {k : K} {l : List α} : find key k l = none ↔ k ∉ l.map key := by
  rw [find, List.find?_eq_none, List.mem_map]
  constructor
  · rintro h ⟨x, hx, hk⟩
    exact h x hx (decide_eq_true hk)
  · intro h x hx hk
    exact h ⟨x, hx, of_decide_eq_true hk⟩

/-- **The keys stay**, in their order. -/
theorem keys_modify {g : α → α} (hg : ∀ x, key (g x) = key x) (k : K) (l : List α) :
    (modify key k g l).map key = l.map key := by
  induction l with
  | nil => rfl
  | cons x l ih =>
      by_cases h : key x = k
      · rw [modify_cons_self h, List.map_cons, List.map_cons, hg x]
      · rw [modify_cons_of_ne h, List.map_cons, List.map_cons, ih]

/-- The replaced entry is read back. -/
theorem find_modify_self {g : α → α} (hg : ∀ x, key (g x) = key x) (k : K) (l : List α) :
    find key k (modify key k g l) = (find key k l).map g := by
  induction l with
  | nil => rfl
  | cons x l ih =>
      by_cases h : key x = k
      · rw [modify_cons_self h, find_cons_self ((hg x).trans h), find_cons_self h, Option.map_some]
      · rw [modify_cons_of_ne h, find_cons_of_ne h, find_cons_of_ne h, ih]

/-- Other keys read what they read before. -/
theorem find_modify_of_ne {g : α → α} (hg : ∀ x, key (g x) = key x) {k k' : K} (hne : k' ≠ k)
    (l : List α) : find key k' (modify key k g l) = find key k' l := by
  induction l with
  | nil => rfl
  | cons x l ih =>
      by_cases h : key x = k
      · have hx : key x ≠ k' := fun hx => hne (hx.symm.trans h)
        rw [modify_cons_self h, find_cons_of_ne hx, find_cons_of_ne]
        exact fun hgx => hx ((hg x).symm.trans hgx)
      · rw [modify_cons_of_ne h]
        by_cases hx : key x = k'
        · rw [find_cons_self hx, find_cons_self hx]
        · rw [find_cons_of_ne hx, find_cons_of_ne hx, ih]

/-- An entry after a replacement is an old one or the one replaced. -/
theorem mem_modify {g : α → α} {k : K} {l : List α} {y : α} (h : y ∈ modify key k g l) :
    y ∈ l ∨ ∃ x, find key k l = some x ∧ y = g x := by
  induction l with
  | nil => cases h
  | cons x l ih =>
      by_cases hx : key x = k
      · rw [modify_cons_self hx, List.mem_cons] at h
        rcases h with h | h
        · exact Or.inr ⟨x, find_cons_self hx, h⟩
        · exact Or.inl (List.mem_cons_of_mem x h)
      · rw [modify_cons_of_ne hx, List.mem_cons] at h
        rcases h with rfl | h
        · exact Or.inl List.mem_cons_self
        · rw [find_cons_of_ne hx]
          exact (ih h).imp_left (List.mem_cons_of_mem x)

/-- **An entry behind another one with the same key does not satisfy `p`.** -/
def Shadowed (key : α → K) (p : α → Prop) (l : List α) : Prop :=
  l.Pairwise fun x y => key x = key y → ¬ p y

/-- Only first entries are replaced. -/
theorem Shadowed.modify {p : α → Prop} {g : α → α} (hg : ∀ x, key (g x) = key x) {k : K}
    {l : List α} (h : Shadowed key p l) : Shadowed key p (modify key k g l) := by
  induction l with
  | nil => exact h
  | cons x l ih =>
      have htail : ∀ y ∈ l, key x = key y → ¬ p y := fun y hy => List.rel_of_pairwise_cons h hy
      by_cases hx : key x = k
      · rw [modify_cons_self hx]
        refine List.Pairwise.cons (fun y hy hkey => htail y hy ?_) (List.Pairwise.of_cons h)
        rw [← hg x, hkey]
      · rw [modify_cons_of_ne hx]
        refine List.Pairwise.cons (fun y hy hkey => ?_) (ih (List.Pairwise.of_cons h))
        rcases mem_modify hy with hy | ⟨z, hz, rfl⟩
        · exact htail y hy hkey
        · exact absurd (hkey.trans ((hg z).trans (key_of_find hz))) hx

/-- An entry that satisfies `p` is the one that is found. -/
theorem Shadowed.find_of_mem {p : α → Prop} {l : List α} (h : Shadowed key p l) {x : α}
    (hmem : x ∈ l) (hx : p x) : find key (key x) l = some x := by
  induction l with
  | nil => cases hmem
  | cons y l ih =>
      rw [List.mem_cons] at hmem
      rcases hmem with rfl | hmem
      · exact find_cons_self rfl
      · have hne : key y ≠ key x := fun heq => List.rel_of_pairwise_cons h hmem heq hx
        rw [find_cons_of_ne hne]
        exact ih (List.Pairwise.of_cons h) hmem

/-! ## Images -/

section Map

universe w

variable {β : Type w} {key' : β → K} {f : β → α}

/-- What is found in an image is the image of what is found. -/
theorem find_map {l : List β} (h : ∀ x ∈ l, key (f x) = key' x) (k : K) :
    find key k (l.map f) = (find key' k l).map f := by
  induction l with
  | nil => rfl
  | cons x l ih =>
      have hx := h x List.mem_cons_self
      have hl := ih fun y hy => h y (List.mem_cons_of_mem x hy)
      rw [List.map_cons]
      by_cases hk : key' x = k
      · rw [find_cons_self (hx.trans hk), find_cons_self hk, Option.map_some]
      · rw [find_cons_of_ne (hx ▸ hk), find_cons_of_ne hk, hl]

/-- Replacing the first entry of an image. -/
theorem modify_map {l : List β} (h : ∀ x ∈ l, key (f x) = key' x) {g : α → α} {g' : β → β}
    (hg : ∀ x, g (f x) = f (g' x)) (k : K) :
    modify key k g (l.map f) = (modify key' k g' l).map f := by
  induction l with
  | nil => rfl
  | cons x l ih =>
      have hx := h x List.mem_cons_self
      have hl := ih fun y hy => h y (List.mem_cons_of_mem x hy)
      rw [List.map_cons]
      by_cases hk : key' x = k
      · rw [modify_cons_self (hx.trans hk), modify_cons_self hk, List.map_cons, hg]
      · rw [modify_cons_of_ne (hx ▸ hk), modify_cons_of_ne hk, List.map_cons, hl]

/-- Deleting the first entry of an image. -/
theorem eraseP_map {l : List β} (h : ∀ x ∈ l, key (f x) = key' x) (k : K) :
    (l.map f).eraseP (fun x => key x = k) = (l.eraseP fun x => key' x = k).map f := by
  induction l with
  | nil => rfl
  | cons x l ih =>
      have hx := h x List.mem_cons_self
      have hl := ih fun y hy => h y (List.mem_cons_of_mem x hy)
      rw [List.map_cons]
      by_cases hk : key' x = k
      · simp [hx, hk]
      · simp [hx, hk, hl]

end Map

end StopTrading.FirstMatch
