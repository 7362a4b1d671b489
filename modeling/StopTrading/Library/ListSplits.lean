import Mathlib.Data.List.Basic
import Mathlib.Tactic.Common

/-!
# The elements of a list and what is before them

A condition on every element of a list may read the elements before it: it is then
about every way to write the list as `before ++ x :: after`.  `forall_split_cons` and
`forall_split_concat` take such a condition apart at the front and at the back.

A delimiter splits a list at its first occurrence, in one way only
(`first_split_inj`), and that is the way a search for it finds
(`idxOf?_eq_some_iff_split`).

### Where it is used

Properties of a sequence of events often compare an event with all earlier ones: "no identifier
is used twice", "every fill answers an order before it".  Stated with indices they drag bounds
along. Stated with splits, a run of one more event is one more conjunct (`forall_split_concat`),
and the induction on a run needs nothing else.
-/

namespace StopTrading.ListSplits

universe u

variable {α : Type u} {P : List α → α → Prop}

/-- The empty list has no elements. -/
theorem forall_split_nil : ∀ before x after, ([] : List α) = before ++ x :: after → P before x := by
  intro before x after h
  cases (List.append_eq_nil_iff.mp h.symm).2

/-- The condition at the front. -/
theorem forall_split_cons {xs : List α} {y : α} :
    (∀ before x after, y :: xs = before ++ x :: after → P before x) ↔
      P [] y ∧ ∀ before x after, xs = before ++ x :: after → P (y :: before) x := by
  constructor
  · intro h
    refine ⟨h [] y xs rfl, fun before x after hsplit => ?_⟩
    exact h (y :: before) x after (by rw [hsplit, List.cons_append])
  · rintro ⟨hfirst, hrest⟩ before x after hsplit
    cases before with
    | nil =>
        cases hsplit
        exact hfirst
    | cons z before =>
        obtain ⟨rfl, rfl⟩ := List.cons.inj hsplit
        exact hrest before x after rfl

/-- An element of `xs ++ [y]` is the last one, or what follows it ends with the last one. -/
theorem concat_eq_split {xs before after : List α} {y x : α}
    (h : xs ++ [y] = before ++ x :: after) :
    (before = xs ∧ x = y ∧ after = []) ∨ ∃ after', after = after' ++ [y] ∧
      xs = before ++ x :: after' := by
  rcases List.eq_nil_or_concat after with rfl | ⟨after, last, rfl⟩
  · obtain ⟨rfl, heq⟩ := List.append_inj' h rfl
    cases heq
    exact .inl ⟨rfl, rfl, rfl⟩
  · rw [List.concat_eq_append, ← List.cons_append, ← List.append_assoc] at h
    obtain ⟨rfl, heq⟩ := List.append_inj' h rfl
    cases heq
    exact .inr ⟨after, List.concat_eq_append, rfl⟩

/-- **The condition at the back**: the old elements, and the new one with all of them before it.
-/
theorem forall_split_concat {xs : List α} {y : α} :
    (∀ before x after, xs ++ [y] = before ++ x :: after → P before x) ↔
      (∀ before x after, xs = before ++ x :: after → P before x) ∧ P xs y := by
  constructor
  · intro h
    refine ⟨fun before x after hsplit => ?_, h xs y [] rfl⟩
    exact h before x (after ++ [y]) (by rw [hsplit, List.append_assoc, List.cons_append])
  · rintro ⟨hbefore, hlast⟩ before x after hsplit
    obtain ⟨rfl, rfl, -⟩ | ⟨after', -, hxs⟩ := concat_eq_split hsplit
    · exact hlast
    · exact hbefore before x after' hxs

/-! ## The first occurrence of a delimiter -/

/-- **A list splits at the first occurrence of a delimiter in one way only.** -/
theorem first_split_inj {x : α} {before before' after after' : List α} (h : x ∉ before)
    (h' : x ∉ before') (heq : before ++ x :: after = before' ++ x :: after') :
    before = before' ∧ after = after' := by
  induction before generalizing before' with
  | nil =>
      cases before' with
      | nil => exact ⟨rfl, (List.cons.inj heq).2⟩
      | cons y before' => exact absurd (List.mem_cons.mpr (Or.inl (List.cons.inj heq).1)) h'
  | cons y before ih =>
      cases before' with
      | nil => exact absurd (List.mem_cons.mpr (Or.inl (List.cons.inj heq).1.symm)) h
      | cons z before' =>
          obtain ⟨rfl, hrest⟩ := List.cons.inj heq
          obtain ⟨rfl, hafter⟩ := ih (fun hmem => h (List.mem_cons_of_mem y hmem))
            (fun hmem => h' (List.mem_cons_of_mem y hmem)) hrest
          exact ⟨rfl, hafter⟩

/-- A search finds the first occurrence. -/
theorem idxOf?_eq_some_iff_split [BEq α] [LawfulBEq α] {x : α} {l : List α} {i : Nat} :
    l.idxOf? x = some i ↔
      ∃ before after, l = before ++ x :: after ∧ x ∉ before ∧ before.length = i := by
  induction l generalizing i with
  | nil => simp
  | cons y l ih =>
      rw [List.idxOf?_cons]
      by_cases hy : y = x
      · subst hy
        rw [if_pos (beq_self_eq_true y)]
        constructor
        · rintro ⟨⟩
          exact ⟨[], l, rfl, List.not_mem_nil, rfl⟩
        · rintro ⟨before, after, hsplit, hfirst, rfl⟩
          have hempty : ([] : List α) ++ y :: l = before ++ y :: after := hsplit
          obtain ⟨rfl, -⟩ := first_split_inj List.not_mem_nil hfirst hempty
          rfl
      · rw [if_neg (by simpa using hy), Option.map_eq_some_iff]
        constructor
        · rintro ⟨j, hj, rfl⟩
          obtain ⟨before, after, rfl, hfirst, rfl⟩ := ih.mp hj
          exact ⟨y :: before, after, rfl, by simpa [Ne.symm hy] using hfirst, rfl⟩
        · rintro ⟨before, after, hsplit, hfirst, rfl⟩
          cases before with
          | nil => exact absurd (List.cons.inj hsplit).1 hy
          | cons z before =>
              obtain ⟨rfl, rfl⟩ := List.cons.inj hsplit
              exact ⟨before.length, ih.mpr ⟨before, after, rfl,
                fun hmem => hfirst (List.mem_cons_of_mem y hmem), rfl⟩, rfl⟩

/-! ## Folds that know what they have seen -/

/-- **The invariant of a fold** may speak of the elements seen. -/
theorem foldl_of_seen {β : Type u} {f : β → α → β} (Inv : List α → β → Prop)
    (step : ∀ seen b a, Inv seen b → Inv (seen ++ [a]) (f b a)) :
    ∀ (as : List α) {seen : List α} {b : β}, Inv seen b → Inv (seen ++ as) (as.foldl f b) := by
  intro as
  induction as with
  | nil =>
      intro seen b h
      rwa [List.append_nil]
  | cons a as ih =>
      intro seen b h
      rw [List.foldl_cons, List.append_cons]
      exact ih (step seen b a h)

end StopTrading.ListSplits
