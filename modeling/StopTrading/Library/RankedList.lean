import Mathlib.Data.List.InsertIdx
import Mathlib.Data.List.Basic
import Mathlib.Order.Defs.Unbundled
import Mathlib.Tactic.Common

/-!
# Lists kept in order by the place of insertion

Code that keeps a list in order puts a new element in front of the first one that comes after
it (`insertBefore`), and changes an element by the first one that passes a test
(`modifyFirst`).  The list stays in order exactly if the new element compares with all others
(`pairwise_insertBefore`), and where at most one element passes the test it is the one that
is changed (`forall_mem_modifyFirst`).

### Why order by insertion

A list that is kept sorted by comparing with one element at a time is sorted only if the test is
one of a strict order, and code often tests something weaker: the price, but not the time.
`pairwise_insertBefore` is an equivalence, so it says what else has to be true of the list and
the new element; a program whose test is too weak fails there and not in a proof about sorting.
-/

namespace StopTrading.RankedList

universe u v

variable {α : Type u} {β : Type v}

/-- Insert in front of the first element that passes a test, or at the end. -/
def insertBefore (p : α → Bool) (x : α) (l : List α) : List α :=
  match l.findIdx? p with
  | some i => l.insertIdx i x
  | none => l ++ [x]

/-- In front of the first element, -/
theorem insertBefore_cons_of_pos {p : α → Bool} {a : α} (h : p a = true) (x : α) (l : List α) :
    insertBefore p x (a :: l) = x :: a :: l := by
  rw [insertBefore, List.findIdx?_cons, if_pos h]
  rfl

/-- or somewhere behind it. -/
theorem insertBefore_cons_of_neg {p : α → Bool} {a : α} (h : p a = false) (x : α) (l : List α) :
    insertBefore p x (a :: l) = a :: insertBefore p x l := by
  rw [insertBefore, List.findIdx?_cons, if_neg (Bool.eq_false_iff.mp h), insertBefore]
  cases l.findIdx? p with
  | none => rfl
  | some i => rfl

/-- The elements and the new one. -/
theorem mem_insertBefore {p : α → Bool} {x a : α} {l : List α} :
    a ∈ insertBefore p x l ↔ a = x ∨ a ∈ l := by
  induction l with
  | nil => exact List.mem_cons
  | cons b l ih =>
      cases h : p b with
      | true =>
          rw [insertBefore_cons_of_pos h]
          exact List.mem_cons
      | false => rw [insertBefore_cons_of_neg h, List.mem_cons, ih, List.mem_cons, or_left_comm]

/-- **An ordered list stays in order** exactly if the new element compares with all others. -/
theorem pairwise_insertBefore {r : α → α → Prop} [IsTrans α r] {p : α → Bool} {x : α}
    (hp : ∀ a, p a = true ↔ r x a) :
    ∀ {l : List α}, l.Pairwise r →
      ((insertBefore p x l).Pairwise r ↔ ∀ a ∈ l, r a x ∨ r x a) := by
  intro l
  induction l with
  | nil => exact fun _ => iff_of_true (List.pairwise_singleton r x) nofun
  | cons a l ih =>
      intro hl
      obtain ⟨hahead, hrest⟩ := List.pairwise_cons.mp hl
      rw [List.forall_mem_cons]
      cases h : p a with
      | true =>
          have hxa := (hp a).mp h
          have hxl : ∀ b ∈ l, r x b := fun b hb => trans_of r hxa (hahead b hb)
          rw [insertBefore_cons_of_pos h]
          exact iff_of_true (hl.cons (List.forall_mem_cons.mpr ⟨hxa, hxl⟩))
            ⟨.inr hxa, fun b hb => .inr (hxl b hb)⟩
      | false =>
          have hxa : ¬ r x a := fun hxa => Bool.noConfusion (h.symm.trans ((hp a).mpr hxa))
          rw [insertBefore_cons_of_neg h, List.pairwise_cons, ih hrest, or_iff_left hxa]
          refine and_congr_left fun _ => ⟨fun hall => hall x (mem_insertBefore.mpr (.inl rfl)), ?_⟩
          intro hax b hb
          rcases mem_insertBefore.mp hb with rfl | hb
          · exact hax
          · exact hahead b hb

/-! ## Changing an element -/

/-- Change the first element that passes a test. -/
def modifyFirst (q : α → Prop) [DecidablePred q] (f : α → α) (l : List α) : List α :=
  l.replaceF fun a => if q a then some (f a) else none

section ModifyFirst

variable {q : α → Prop} [DecidablePred q] {f : α → α} {a : α}

/-- The first element is changed, -/
theorem modifyFirst_cons_of_pos (h : q a) (l : List α) :
    modifyFirst q f (a :: l) = f a :: l := by
  exact List.replaceF_cons_of_some (fun a => if q a then some (f a) else none) (if_pos h)

/-- or one behind it. -/
theorem modifyFirst_cons_of_neg (h : ¬ q a) (l : List α) :
    modifyFirst q f (a :: l) = a :: modifyFirst q f l := by
  exact List.replaceF_cons_of_none (fun a => if q a then some (f a) else none) (if_neg h)

/-- What the change keeps, the list keeps. -/
theorem map_modifyFirst {g : α → β} (h : ∀ a, g (f a) = g a) (l : List α) :
    (modifyFirst q f l).map g = l.map g := by
  induction l with
  | nil => rfl
  | cons a l ih =>
      by_cases ha : q a
      · rw [modifyFirst_cons_of_pos ha, List.map_cons, List.map_cons, h]
      · rw [modifyFirst_cons_of_neg ha, List.map_cons, List.map_cons, ih]

/-- Where one element passes the test at most, it is the one that changes. -/
theorem forall_mem_modifyFirst {P : α → Prop} {l : List α}
    (hone : l.Pairwise fun a b => q a → ¬ q b) :
    (∀ a ∈ modifyFirst q f l, P a) ↔ ∀ a ∈ l, P (if q a then f a else a) := by
  induction l with
  | nil => exact iff_of_true nofun nofun
  | cons a l ih =>
      obtain ⟨ha', hrest⟩ := List.pairwise_cons.mp hone
      rw [List.forall_mem_cons]
      by_cases ha : q a
      · rw [modifyFirst_cons_of_pos ha, List.forall_mem_cons, if_pos ha]
        refine and_congr_right fun _ => forall₂_congr fun b hb => ?_
        rw [if_neg (ha' b hb ha)]
      · rw [modifyFirst_cons_of_neg ha, List.forall_mem_cons, if_neg ha, ih hrest]

end ModifyFirst

end StopTrading.RankedList
