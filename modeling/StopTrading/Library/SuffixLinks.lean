import Mathlib.Data.List.Induction
import Mathlib.Data.List.Infix
import Mathlib.Data.List.Nodup
import Mathlib.Logic.Function.Basic
import Mathlib.Tactic.Common

/-!
# Tries with suffix links

A trie is a list `T` of words, its nodes in the order of their numbers, closed under
prefixes.  `longestSuffix T w` is the longest suffix of `w` that is a node, which is
where an automaton over the trie stands after reading `w`.

* `longestSuffix_append` — that place can be kept one character at a time.
* `shortestMark` — the mark of the shortest marked suffix of a word, for marks that
  some nodes carry; `shortestMark_eq_some_iff` says it without recursion, and
  `shortestMark_longestSuffix` reads it off the place of the automaton.
* `Represents` — a transition table over node numbers, 0 for the root and for a
  missing edge, that has the edges of the trie; `Represents.grow` adds a node.
* `follow`, `follow_spec` — the walk along suffix links to a node that has an edge,
  which ends; `place_of_stop` is where the automaton goes from there.

### What is load-bearing

The automaton of Aho and Corasick is usually specified by its tables.  Here the trie is a list of
words, and where the automaton stands is defined without it, as `longestSuffix` of what was read.
`longestSuffix_append` is the one fact about words: the new place is a suffix of the old place
and one character, so nothing read earlier has to be kept.  `follow_spec` then says that walking
along links finds it.

Links are built level by level, so while they are built they are right only up to some length
(`LinkedUpTo`), and the walk that computes the next one stays below.  A node number 0 serves both
as the root and as "no edge"; `Represents.gap` is stated for 0 and is the reason why edges to the
root do not exist.

Which mark is reported depends on the order in which suffixes are looked at: `shortestMark`
reports the shortest marked suffix, as a table does that passes marks on from shorter words to
longer ones.
-/

namespace StopTrading.SuffixLinks

universe u v

variable {α : Type u} {β : Type v}

/-! ## Words -/

/-- A node without its last character is a node. -/
def PrefixClosed (T : List (List α)) : Prop := ∀ w c, w ++ [c] ∈ T → w ∈ T

/-- Every prefix of a node is a node. -/
theorem PrefixClosed.of_append {T : List (List α)} (h : PrefixClosed T) {w : List α} :
    ∀ v : List α, w ++ v ∈ T → w ∈ T := by
  intro v
  induction v using List.reverseRecOn with
  | nil => intro hw; rwa [List.append_nil] at hw
  | append_singleton v c ih =>
      intro hw
      rw [← List.append_assoc] at hw
      exact ih (h _ c hw)

/-- Nodes are shorter than there are nodes. -/
theorem PrefixClosed.length_lt {T : List (List α)} (h : PrefixClosed T) {w : List α}
    (hw : w ∈ T) : w.length < T.length := by
  have hsubset : List.range (w.length + 1) ⊆ T.map List.length := by
    intro k hk
    rw [List.mem_range] at hk
    have htake : w.take k ∈ T := h.of_append (w.drop k) (by rwa [List.take_append_drop])
    exact List.mem_map.mpr ⟨_, htake, List.length_take_of_le (by omega)⟩
  have hle := List.nodup_range.length_le_of_subset hsubset
  rw [List.length_range, List.length_map] at hle
  exact hle

/-- **The mark of the shortest marked suffix** of a word, the empty one left out. -/
def shortestMark (mark : List α → Option β) : List α → Option β
  | [] => none
  | a :: w => (shortestMark mark w).or (mark (a :: w))

/-- No suffix is marked. -/
theorem shortestMark_eq_none_iff {mark : List α → Option β} {w : List α} :
    shortestMark mark w = none ↔ ∀ u, u ≠ [] → u <:+ w → mark u = none := by
  induction w with
  | nil =>
      refine iff_of_true rfl fun u hne hu => absurd (List.suffix_nil.mp hu) hne
  | cons a w ih =>
      rw [shortestMark, Option.or_eq_none_iff, ih]
      constructor
      · rintro ⟨hshorter, hmark⟩ u hne hu
        rcases List.suffix_cons_iff.mp hu with rfl | hu
        · exact hmark
        · exact hshorter u hne hu
      · intro h
        exact ⟨fun u hne hu => h u hne (hu.trans (List.suffix_cons a w)),
          h _ (List.cons_ne_nil a w) List.suffix_rfl⟩

/-- A word is marked, and none of its proper suffixes is. -/
structure FirstMarked (mark : List α → Option β) (b : β) (u : List α) : Prop where
  /-- the empty word does not count -/
  ne_nil : u ≠ []
  /-- the word is marked -/
  mark_eq : mark u = some b
  /-- and no shorter suffix of it is -/
  unmarked : ∀ v, v ≠ [] → v <:+ u → v ≠ u → mark v = none

/-- **The reported mark** is that of the shortest marked suffix. -/
theorem shortestMark_eq_some_iff {mark : List α → Option β} {w : List α} {b : β} :
    shortestMark mark w = some b ↔ ∃ u, u <:+ w ∧ FirstMarked mark b u := by
  induction w with
  | nil =>
      refine iff_of_false (by simp [shortestMark]) ?_
      rintro ⟨u, hu, hfirst⟩
      exact hfirst.ne_nil (List.suffix_nil.mp hu)
  | cons a w ih =>
      rw [shortestMark, Option.or_eq_some_iff, ih, shortestMark_eq_none_iff]
      constructor
      · rintro (⟨u, hu, hfirst⟩ | ⟨hshorter, hmark⟩)
        · exact ⟨u, hu.trans (List.suffix_cons a w), hfirst⟩
        · refine ⟨a :: w, List.suffix_rfl, List.cons_ne_nil a w, hmark, fun v hne hv hproper => ?_⟩
          exact hshorter v hne ((List.suffix_cons_iff.mp hv).resolve_left hproper)
      · rintro ⟨u, hu, hfirst⟩
        rcases List.suffix_cons_iff.mp hu with rfl | hu
        · refine Or.inr ⟨fun v hne hv => ?_, hfirst.mark_eq⟩
          refine hfirst.unmarked v hne (hv.trans (List.suffix_cons a w)) ?_
          rintro rfl
          exact absurd hv.length_le (by simp)
        · exact Or.inl ⟨u, hu, hfirst⟩

/-! ## Tables -/

/-- **A transition table for the trie**: it has an edge where the longer word is a node,
and 0 elsewhere. -/
structure Represents (T : List (List α)) (next : Nat → α → Nat) : Prop where
  /-- the root has the number 0 -/
  root : T[0]? = some []
  /-- a word has one number -/
  nodup : T.Nodup
  /-- words are reached through their prefixes -/
  closed : PrefixClosed T
  /-- an edge leads to the longer word -/
  edge : ∀ {s w c}, T[s]? = some w → next s c ≠ 0 → T[next s c]? = some (w ++ [c])
  /-- and where there is none, there is no such node -/
  gap : ∀ {s w c}, T[s]? = some w → next s c = 0 → w ++ [c] ∉ T

namespace Represents

variable {T : List (List α)} {next : Nat → α → Nat} (h : Represents T next)
include h

/-- The root is a node, -/
theorem root_mem : [] ∈ T := List.mem_of_getElem? h.root

/-- a word has one number, -/
theorem state_inj {s t : Nat} {w : List α} (hs : T[s]? = some w) (ht : T[t]? = some w) :
    s = t :=
  (List.getElem?_inj (List.getElem?_eq_some_iff.mp hs).1 h.nodup).mp (hs.trans ht.symm)

/-- and the root has the number 0. -/
theorem eq_zero_iff {s : Nat} {w : List α} (hs : T[s]? = some w) : s = 0 ↔ w = [] := by
  constructor
  · rintro rfl
    exact Option.some.inj (hs.symm.trans h.root)
  · rintro rfl
    exact h.state_inj hs h.root

end Represents

/-! ## Places -/

variable [DecidableEq α]

/-- **The longest suffix** of a word that is a node. -/
def longestSuffix (T : List (List α)) : List α → List α
  | [] => []
  | a :: w => if a :: w ∈ T then a :: w else longestSuffix T w

variable {T : List (List α)}

/-- A node is its own place. -/
theorem longestSuffix_of_mem {w : List α} (h : w ∈ T) : longestSuffix T w = w := by
  cases w with
  | nil => rfl
  | cons a w => rw [longestSuffix, if_pos h]

/-- A word that is no node has the place of a shorter one. -/
theorem longestSuffix_cons_of_notMem {a : α} {w : List α} (h : a :: w ∉ T) :
    longestSuffix T (a :: w) = longestSuffix T w := by
  rw [longestSuffix, if_neg h]

/-- A place is a node, -/
theorem longestSuffix_mem (hroot : [] ∈ T) (w : List α) : longestSuffix T w ∈ T := by
  induction w with
  | nil => exact hroot
  | cons a w ih =>
      by_cases h : a :: w ∈ T
      · rwa [longestSuffix_of_mem h]
      · rwa [longestSuffix_cons_of_notMem h]

/-- and no longer than the word. -/
theorem length_longestSuffix_le (w : List α) : (longestSuffix T w).length ≤ w.length := by
  induction w with
  | nil => exact le_rfl
  | cons a w ih =>
      by_cases h : a :: w ∈ T
      · rw [longestSuffix_of_mem h]
      · rw [longestSuffix_cons_of_notMem h, List.length_cons]
        exact Nat.le_succ_of_le ih

/-- **The place after one more character** depends on the place before it only. -/
theorem longestSuffix_append (hclosed : PrefixClosed T) (w : List α) (c : α) :
    longestSuffix T (w ++ [c]) = longestSuffix T (longestSuffix T w ++ [c]) := by
  induction w with
  | nil => rfl
  | cons a w ih =>
      by_cases h : a :: w ∈ T
      · rw [longestSuffix_of_mem h]
      · have hlonger : a :: (w ++ [c]) ∉ T := fun hmem => h (hclosed (a :: w) c hmem)
        rw [longestSuffix_cons_of_notMem h, List.cons_append,
          longestSuffix_cons_of_notMem hlonger, ih]

/-- Marks of nodes can be read off the place of the automaton. -/
theorem shortestMark_longestSuffix {mark : List α → Option β}
    (hmark : ∀ w, w ∉ T → mark w = none) (w : List α) :
    shortestMark mark (longestSuffix T w) = shortestMark mark w := by
  induction w with
  | nil => rfl
  | cons a w ih =>
      by_cases h : a :: w ∈ T
      · rw [longestSuffix_of_mem h]
      · rw [longestSuffix_cons_of_notMem h, ih, shortestMark, hmark _ h, Option.or_none]

/-! ## Growing -/

/-- The trie with one more node, where it is new. -/
def addNode (T : List (List α)) (w : List α) : List (List α) := if w ∈ T then T else T ++ [w]

/-- The nodes afterwards. -/
theorem mem_addNode {w u : List α} : u ∈ addNode T w ↔ u ∈ T ∨ u = w := by
  unfold addNode
  split
  · rename_i hmem
    exact ⟨Or.inl, fun h => h.elim id fun heq => heq ▸ hmem⟩
  · rw [List.mem_append, List.mem_singleton]

/-- Nodes keep their numbers. -/
theorem getElem?_addNode {s : Nat} {u : List α} (hs : T[s]? = some u) (w : List α) :
    (addNode T w)[s]? = some u := by
  unfold addNode
  split
  · exact hs
  · rwa [List.getElem?_append_left (List.getElem?_eq_some_iff.mp hs).1]

/-- Their number does not go down. -/
theorem length_le_addNode (T : List (List α)) (w : List α) :
    T.length ≤ (addNode T w).length := by
  unfold addNode
  split
  · exact le_rfl
  · rw [List.length_append]
    exact Nat.le_add_right _ _

/-- The entries of a table with an edge to a new node, whose row is empty. -/
theorem update_grow (next : Nat → α → Nat) (s node : Nat) (c : α) (t : Nat) (d : α) :
    Function.update (Function.update next s (Function.update (next s) c node)) node
        (fun _ => 0) t d =
      if t = node then 0 else if t = s ∧ d = c then node else next t d := by
  by_cases hnode : t = node
  · rw [if_pos hnode, hnode, Function.update_self]
  · rw [if_neg hnode, Function.update_of_ne hnode]
    by_cases hts : t = s
    · subst hts
      rw [Function.update_self]
      by_cases hdc : d = c
      · rw [if_pos ⟨rfl, hdc⟩, hdc, Function.update_self]
      · rw [if_neg fun h => hdc h.2, Function.update_of_ne hdc]
    · rw [if_neg fun h => hts h.1, Function.update_of_ne hts]

/-- **A table grows with the trie**: the new node gets the next number, an edge to it
and an empty row. -/
theorem Represents.grow {next : Nat → α → Nat} (h : Represents T next) {s : Nat} {w : List α}
    {c : α} (hs : T[s]? = some w) (hgap : next s c = 0) :
    Represents (T ++ [w ++ [c]])
      (Function.update (Function.update next s (Function.update (next s) c T.length)) T.length
        fun _ => 0) := by
  have hnew : w ++ [c] ∉ T := h.gap hs hgap
  have hpos : T.length ≠ 0 := by
    intro hzero
    have hroot := h.root
    rw [List.length_eq_zero_iff.mp hzero] at hroot
    cases hroot
  have hlast : (T ++ [w ++ [c]])[T.length]? = some (w ++ [c]) := List.getElem?_concat_length
  have hold : ∀ {t u}, T[t]? = some u → (T ++ [w ++ [c]])[t]? = some u := fun ht => by
    rwa [List.getElem?_append_left (List.getElem?_eq_some_iff.mp ht).1]
  have hcases : ∀ {t u}, (T ++ [w ++ [c]])[t]? = some u →
      (t = T.length ∧ u = w ++ [c]) ∨ (t ≠ T.length ∧ T[t]? = some u) := by
    intro t u ht
    have hlt := (List.getElem?_eq_some_iff.mp ht).1
    rw [List.length_append, List.length_singleton] at hlt
    by_cases heq : t = T.length
    · rw [heq, hlast] at ht
      exact Or.inl ⟨heq, (Option.some.inj ht).symm⟩
    · rw [List.getElem?_append_left (by omega)] at ht
      exact Or.inr ⟨heq, ht⟩
  refine ⟨hold h.root, ?_, ?_, ?_, ?_⟩
  · rw [← List.concat_eq_append]
    exact h.nodup.concat hnew
  · intro u d hmem
    rw [List.mem_append, List.mem_singleton] at hmem ⊢
    rcases hmem with hmem | heq
    · exact Or.inl (h.closed u d hmem)
    · rw [(List.append_inj' heq rfl).1]
      exact Or.inl (List.mem_of_getElem? hs)
  · intro t u d ht hedge
    rw [update_grow] at hedge ⊢
    rcases hcases ht with ⟨heq, -⟩ | ⟨hne, hut⟩
    · exact absurd (if_pos heq) hedge
    · rw [if_neg hne] at hedge ⊢
      by_cases hgrown : t = s ∧ d = c
      · obtain ⟨rfl, rfl⟩ := hgrown
        obtain rfl := Option.some.inj (hs.symm.trans hut)
        rwa [if_pos ⟨rfl, rfl⟩]
      · rw [if_neg hgrown] at hedge ⊢
        exact hold (h.edge hut hedge)
  · intro t u d ht hempty hmem
    rw [update_grow] at hempty
    rw [List.mem_append, List.mem_singleton] at hmem
    rcases hcases ht with ⟨-, rfl⟩ | ⟨hne, hut⟩
    · -- a child of the new node would have it for a parent already
      rcases hmem with hmem | heq
      · exact hnew (h.closed _ d hmem)
      · exact absurd (congrArg List.length heq) (by simp)
    · rw [if_neg hne] at hempty
      by_cases hgrown : t = s ∧ d = c
      · rw [if_pos hgrown] at hempty
        exact hpos hempty
      · rw [if_neg hgrown] at hempty
        rcases hmem with hmem | heq
        · exact h.gap hut hempty hmem
        · obtain ⟨rfl, hdc⟩ := List.append_inj' heq rfl
          exact hgrown ⟨h.state_inj hut hs, (List.cons.inj hdc).1⟩

/-! ## Walks -/

/-- The walk along suffix links to a node that has an edge for `c`, or to the root. -/
def follow (next : Nat → α → Nat) (failure : Nat → Nat) (c : α) : (fuel s : Nat) → Option Nat
  | 0, _ => none
  | fuel + 1, s =>
      if s ≠ 0 ∧ next s c = 0 then follow next failure c fuel (failure s) else some s

/-- The links of the nodes up to length `k` lead to their longest proper suffixes. -/
def LinkedUpTo (T : List (List α)) (failure : Nat → Nat) (k : Nat) : Prop :=
  ∀ s w, T[s]? = some w → w ≠ [] → w.length ≤ k →
    T[failure s]? = some (longestSuffix T w.tail)

variable {next : Nat → α → Nat} {failure : Nat → Nat} {k : Nat}

/-- **The walk ends**, and what it leaves behind does not matter for the next place. -/
theorem follow_spec (h : Represents T next) (hlinked : LinkedUpTo T failure k) {c : α}
    {fuel s : Nat} {w : List α} (hs : T[s]? = some w) (hk : w.length ≤ k)
    (hfuel : w.length < fuel) :
    ∃ t v, follow next failure c fuel s = some t ∧ T[t]? = some v ∧ v.length ≤ w.length ∧
      longestSuffix T (w ++ [c]) = longestSuffix T (v ++ [c]) ∧ (t = 0 ∨ next t c ≠ 0) := by
  induction fuel generalizing s w with
  | zero => exact absurd hfuel (Nat.not_lt_zero _)
  | succ fuel ih =>
      rw [follow]
      split
      · rename_i hwalk
        obtain ⟨hs0, hgap⟩ := hwalk
        have hne : w ≠ [] := fun hnil => hs0 ((h.eq_zero_iff hs).mpr hnil)
        obtain ⟨a, u, rfl⟩ := List.exists_cons_of_ne_nil hne
        have hlink := hlinked s _ hs hne hk
        rw [List.tail_cons] at hlink
        have hshort := length_longestSuffix_le (T := T) u
        rw [List.length_cons] at hk hfuel
        obtain ⟨t, v, hfollow, ht, hv, hplace, hstop⟩ := ih hlink (by omega) (by omega)
        refine ⟨t, v, hfollow, ht, ?_, ?_, hstop⟩
        · rw [List.length_cons]
          omega
        · have hnot : a :: (u ++ [c]) ∉ T := h.gap hs hgap
          rw [List.cons_append, longestSuffix_cons_of_notMem hnot, longestSuffix_append h.closed,
            hplace]
      · rename_i hstop
        refine ⟨s, w, rfl, hs, le_rfl, rfl, ?_⟩
        by_contra hneither
        exact hstop (by tauto)

/-- **The next place**: the edge where the walk ended, or the root. -/
theorem place_of_stop (h : Represents T next) {c : α} {t : Nat} {v : List α}
    (ht : T[t]? = some v) (hstop : t = 0 ∨ next t c ≠ 0) :
    T[if next t c ≠ 0 then next t c else t]? = some (longestSuffix T (v ++ [c])) := by
  split
  · rename_i hedge
    have hnode := h.edge ht hedge
    rwa [longestSuffix_of_mem (List.mem_of_getElem? hnode)]
  · rename_i hgap
    have ht0 := hstop.resolve_right hgap
    have hnot := h.gap ht (not_not.mp hgap)
    rw [(h.eq_zero_iff ht).mp ht0] at hnot ⊢
    rw [ht0, List.nil_append, longestSuffix_cons_of_notMem hnot]
    exact h.root

end StopTrading.SuffixLinks
