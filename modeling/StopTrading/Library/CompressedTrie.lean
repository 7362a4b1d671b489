import Mathlib.Data.List.Infix
import Mathlib.Logic.Function.Basic
import Mathlib.Tactic.Common

/-!
# Compressed tries

The nodes of a trie have children by symbols, and every child has a fragment of the keys that
lead to it.  `Reach t a r b` says that the word `r` leads from `a` to `b`; a search compares
the fragments with a key on its way down.

`Shape` is the invariant: fragments start with the symbol of their child, a node is the child
of one node only, and ranks increase downwards.  Under it words and nodes belong together
(`Reach.node_unique`, `Shape.word_unique`) and the search finds what is reached
(`Shape.search_eq_node_iff`).  A new leaf and a new fragment keep the shape
(`Shape.addLeaf`, `Shape.rename`); the words to the nodes that are not below the renamed one
stay as they were (`SameBut.reach_of_not_below`).

### What is load-bearing

A node carries a fragment of several symbols, and its parent finds it by the first of them.
Three things make this a trie, and all are needed:

* `starts` ties the symbol to the fragment, so that a search that follows a symbol compares the
  right word.  Without it two words could lead to one node through the same edge.
* `parent` gives a node one way in.  It is what makes a word recoverable from a node, and hence
  what lets a change of one fragment be followed to the words it changes.
* `rank_lt` forbids cycles.  The rank of a node in an arena is its index.

`Reach` is stated with words appended at the front because a search runs from the root, and
`Reach.last` turns it around where a proof needs the last step.  The effect of renaming a node is
stated for the nodes that are not below it: what happens below is a change of all words there,
and `Shape.reach_rename` says which.
-/

namespace StopTrading.CompressedTrie

universe u v

variable {N : Type u} {K : Type v}

/-- The children and the fragments of the nodes. -/
structure Trie (N : Type u) (K : Type v) where
  child : N → K → Option N
  fragment : N → List K

/-- **A word leads from a node to another.** -/
inductive Reach (t : Trie N K) : N → List K → N → Prop
  | refl (a : N) : Reach t a [] a
  | step {a b d : N} {c : K} {f r : List K} : t.child a c = some b → t.fragment b = c :: f →
      Reach t b r d → Reach t a (c :: f ++ r) d

/-- **The invariant**, with a rank that increases downwards. -/
structure Shape (t : Trie N K) (rank : N → Nat) : Prop where
  /-- children rank behind their parents -/
  rank_lt : ∀ {a b c}, t.child a c = some b → rank a < rank b
  /-- a child is found by the first symbol of its fragment -/
  starts : ∀ {a b c}, t.child a c = some b → ∃ f, t.fragment b = c :: f
  /-- a node is the child of one node, by one symbol -/
  parent : ∀ {a a' b c c'}, t.child a c = some b → t.child a' c' = some b → a = a' ∧ c = c'

/-! ## Words -/

namespace Reach

variable {t : Trie N K} {a b d : N} {r s : List K}

/-- One word after another. -/
theorem trans (h : Reach t a r b) (h' : Reach t b s d) : Reach t a (r ++ s) d := by
  induction h with
  | refl => exact h'
  | step hchild hfragment _ ih =>
      rw [List.append_assoc]
      exact .step hchild hfragment (ih h')

/-- One step. -/
theorem single {c : K} {f : List K} (hchild : t.child a c = some b)
    (hfragment : t.fragment b = c :: f) : Reach t a (c :: f) b := by
  have h := Reach.step hchild hfragment (.refl b)
  rwa [List.append_nil] at h

/-- The last step of a word. -/
theorem last (h : Reach t a r d) :
    (r = [] ∧ a = d) ∨ ∃ e c f r', Reach t a r' e ∧ t.child e c = some d ∧
      t.fragment d = c :: f ∧ r = r' ++ c :: f := by
  induction h with
  | refl => exact .inl ⟨rfl, rfl⟩
  | @step a b d c f r hchild hfragment _ ih =>
      rcases ih with ⟨rfl, rfl⟩ | ⟨e, c', f', r', hreach, hchild', hfragment', rfl⟩
      · exact .inr ⟨a, c, f, [], .refl a, hchild, hfragment, by simp⟩
      · exact .inr ⟨e, c', f', c :: f ++ r', .step hchild hfragment hreach, hchild', hfragment',
          by simp⟩

/-- A longer word goes on from where a word leads. -/
theorem cancel (h : Reach t a r b) (h' : Reach t a (r ++ s) d) : Reach t b s d := by
  induction h with
  | refl => exact h'
  | @step a b' b c f r hchild hfragment _ ih =>
      rw [List.append_assoc] at h'
      generalize hword : c :: f ++ (r ++ s) = word at h'
      cases h' with
      | refl => cases hword
      | @step _ b'' _ c' f' r' hchild' hfragment' hrest =>
          rw [List.cons_append, List.cons_append, List.cons.injEq] at hword
          obtain ⟨rfl, hword⟩ := hword
          rw [hchild] at hchild'
          cases hchild'
          rw [hfragment, List.cons.injEq] at hfragment'
          obtain ⟨-, rfl⟩ := hfragment'
          rw [← List.append_cancel_left hword] at hrest
          exact ih hrest

/-- **A word leads to one node.** -/
theorem node_unique (h : Reach t a r b) (h' : Reach t a r d) : b = d := by
  rw [← List.append_nil r] at h'
  generalize hnil : ([] : List K) = s at h'
  have hrest := h.cancel h'
  cases hrest with
  | refl => rfl
  | step => cases hnil

end Reach

namespace Shape

variable {t : Trie N K} {rank : N → Nat} {a b d : N} {r : List K}

/-- Words lead to nodes of no lower rank. -/
theorem rank_le (h : Shape t rank) (hreach : Reach t a r d) : rank a ≤ rank d := by
  induction hreach with
  | refl => exact le_rfl
  | step hchild _ _ ih => exact (h.rank_lt hchild).le.trans ih

/-- A node is not below its children. -/
theorem not_reach_of_child (h : Shape t rank) {c : K} (hchild : t.child a c = some b)
    (hrank : rank d ≤ rank a) : ¬ Reach t b r d := by
  intro hreach
  have hlt := h.rank_lt hchild
  have hle := h.rank_le hreach
  omega

/-- No step leads back to where a word began. -/
theorem not_child_of_reach (h : Shape t rank) {c : K} (hreach : Reach t a r d) :
    t.child d c ≠ some a := by
  intro hchild
  have hlt := h.rank_lt hchild
  have hle := h.rank_le hreach
  omega

/-- **One word leads to a node.** -/
theorem word_unique (h : Shape t rank) {r' : List K} (hreach : Reach t a r d)
    (hreach' : Reach t a r' d) : r = r' := by
  induction hn : rank d using Nat.strong_induction_on generalizing d r r' with
  | h n ih =>
      rcases hreach.last with ⟨rfl, rfl⟩ | ⟨e, c, f, r₀, hreach₀, hchild, hfragment, rfl⟩ <;>
        rcases hreach'.last with
          ⟨rfl, hsame⟩ | ⟨e', c', f', r₀', hreach₀', hchild', hfragment', rfl⟩
      · rfl
      · exact absurd hchild' (h.not_child_of_reach hreach₀')
      · exact absurd (hsame ▸ hchild) (h.not_child_of_reach hreach₀)
      · obtain ⟨rfl, rfl⟩ := h.parent hchild hchild'
        rw [ih (rank e) (hn ▸ h.rank_lt hchild) hreach₀ hreach₀' rfl, ← hfragment, hfragment']

end Shape

/-! ## Searching -/

section Search

variable [DecidableEq K]

/-- How many symbols of a fragment a key goes on with. -/
def matchLen : List K → List K → Nat
  | f :: fragment, k :: key => if f = k then matchLen fragment key + 1 else 0
  | _, _ => 0

/-- No more symbols than the fragment has. -/
theorem matchLen_le (fragment key : List K) : matchLen fragment key ≤ fragment.length := by
  induction fragment generalizing key with
  | nil => cases key <;> exact le_rfl
  | cons f fragment ih =>
      cases key with
      | nil => exact Nat.zero_le _
      | cons k key =>
          rw [matchLen]
          split
          · exact Nat.succ_le_succ (ih key)
          · exact Nat.zero_le _

/-- The symbols that match are the same. -/
theorem take_matchLen (fragment key : List K) :
    fragment.take (matchLen fragment key) = key.take (matchLen fragment key) := by
  induction fragment generalizing key with
  | nil => cases key <;> rfl
  | cons f fragment ih =>
      cases key with
      | nil => rfl
      | cons k key =>
          rw [matchLen]
          split
          · next h => rw [List.take_succ_cons, List.take_succ_cons, ih, h]
          · rfl

/-- The symbols behind them are not. -/
theorem getElem_matchLen_ne {fragment key : List K}
    (hfragment : matchLen fragment key < fragment.length)
    (hkey : matchLen fragment key < key.length) :
    fragment[matchLen fragment key] ≠ key[matchLen fragment key] := by
  induction fragment generalizing key with
  | nil => exact absurd hfragment (Nat.not_lt_zero _)
  | cons f fragment ih =>
      cases key with
      | nil => exact absurd hkey (Nat.not_lt_zero _)
      | cons k key =>
          by_cases h : f = k
          · have hmatch : matchLen (f :: fragment) (k :: key) = matchLen fragment key + 1 := by
              rw [matchLen, if_pos h]
            simp only [hmatch, List.length_cons, Nat.add_lt_add_iff_right] at hfragment hkey ⊢
            exact ih hfragment hkey
          · have hmatch : matchLen (f :: fragment) (k :: key) = 0 := by
              rw [matchLen, if_neg h]
            simp only [hmatch, List.getElem_cons_zero]
            exact h

/-- A key goes on with a whole fragment if the fragment is a prefix of it. -/
theorem matchLen_eq_length_iff {fragment key : List K} :
    matchLen fragment key = fragment.length ↔ fragment <+: key := by
  induction fragment generalizing key with
  | nil => cases key <;> exact iff_of_true rfl List.nil_prefix
  | cons f fragment ih =>
      cases key with
      | nil => exact iff_of_false nofun (by simp)
      | cons k key =>
          rw [matchLen, List.cons_prefix_cons, ← ih, List.length_cons]
          split
          · next h => simp [h]
          · next h => simp [h]

/-- Where a search ends. -/
inductive Outcome (N : Type u) where
  /-- the key leads to a node -/
  | node (n : N)
  /-- a symbol has no child -/
  | missing
  /-- a fragment goes another way -/
  | mismatch
  deriving DecidableEq

/-- **The search for a key**, from a node on; `none` if it does not end within the rounds. -/
def search (t : Trie N K) : Nat → N → List K → Option (Outcome N)
  | _, a, [] => some (.node a)
  | 0, _, _ :: _ => none
  | rounds + 1, a, c :: key =>
      match t.child a c with
      | none => some .missing
      | some b =>
          let matched := matchLen (t.fragment b) (c :: key)
          if matched < (t.fragment b).length then some .mismatch
          else search t rounds b ((c :: key).drop matched)

variable {t : Trie N K} {rank : N → Nat} {a b : N}

/-- The search along a fragment. -/
theorem search_step {c : K} {f r : List K} (hchild : t.child a c = some b)
    (hfragment : t.fragment b = c :: f) (rounds : Nat) :
    search t (rounds + 1) a (c :: f ++ r) = search t rounds b r := by
  have hmatched : matchLen (t.fragment b) (c :: f ++ r) = (t.fragment b).length :=
    matchLen_eq_length_iff.mpr (hfragment ▸ List.prefix_append ..)
  rw [List.cons_append] at hmatched ⊢
  simp only [search, hchild, hmatched, lt_irrefl, if_false]
  rw [hfragment, ← List.cons_append, List.drop_left]

/-- The empty key ends where the search begins. -/
@[simp]
theorem search_nil (rounds : Nat) : search t rounds a [] = some (.node a) := by
  cases rounds <;> rfl

/-- **The search finds what a word leads to.** -/
theorem Reach.search_eq {r : List K} (h : Reach t a r b) {rounds : Nat}
    (hrounds : r.length ≤ rounds) : search t rounds a r = some (.node b) := by
  induction h generalizing rounds with
  | refl => exact search_nil rounds
  | step hchild hfragment _ ih =>
      rw [List.length_append, List.length_cons] at hrounds
      obtain ⟨rounds, rfl⟩ : ∃ n, rounds = n + 1 := ⟨rounds - 1, by omega⟩
      rw [search_step hchild hfragment, ih (by omega)]

/-- A key either leaves the fragment of the child or goes on behind it. -/
theorem Shape.fragment_cases (h : Shape t rank) {c : K} (hchild : t.child a c = some b)
    (key : List K) :
    matchLen (t.fragment b) (c :: key) < (t.fragment b).length ∨
      ∃ f r, t.fragment b = c :: f ∧ c :: key = c :: f ++ r := by
  rcases (matchLen_le (t.fragment b) (c :: key)).lt_or_eq with hlt | heq
  · exact .inl hlt
  · obtain ⟨f, hfragment⟩ := h.starts hchild
    obtain ⟨r, hr⟩ := matchLen_eq_length_iff.mp heq
    exact .inr ⟨f, r, hfragment, by rw [← hr, hfragment]⟩

/-- A search ends within as many rounds as the key has symbols. -/
theorem Shape.search_isSome (h : Shape t rank) {rounds : Nat} {key : List K}
    (hrounds : key.length ≤ rounds) : ∃ o, search t rounds a key = some o := by
  induction rounds generalizing a key with
  | zero =>
      rw [List.length_eq_zero_iff.mp (Nat.le_zero.mp hrounds)]
      exact ⟨_, search_nil 0⟩
  | succ rounds ih =>
      cases key with
      | nil => exact ⟨_, search_nil _⟩
      | cons c key =>
          cases hchild : t.child a c with
          | none => exact ⟨.missing, by simp only [search, hchild]⟩
          | some b =>
              rcases h.fragment_cases hchild key with hlt | ⟨f, r, hfragment, hkey⟩
              · exact ⟨.mismatch, by simp only [search, hchild, if_pos hlt]⟩
              · rw [hkey, List.length_append, List.length_cons] at hrounds
                rw [hkey, search_step hchild hfragment]
                exact ih (by omega)

/-- **What the search finds** is what the key leads to. -/
theorem Shape.search_eq_node_iff (h : Shape t rank) {rounds : Nat} {key : List K}
    (hrounds : key.length ≤ rounds) :
    search t rounds a key = some (.node b) ↔ Reach t a key b := by
  refine ⟨fun hsearch => ?_, fun hreach => hreach.search_eq hrounds⟩
  induction rounds generalizing a key with
  | zero =>
      rw [List.length_eq_zero_iff.mp (Nat.le_zero.mp hrounds)] at hsearch ⊢
      rw [search_nil] at hsearch
      cases hsearch
      exact .refl _
  | succ rounds ih =>
      cases key with
      | nil =>
          rw [search_nil] at hsearch
          cases hsearch
          exact .refl _
      | cons c key =>
          cases hchild : t.child a c with
          | none => simp only [search, hchild, Option.some.injEq, reduceCtorEq] at hsearch
          | some b' =>
              rcases h.fragment_cases hchild key with hlt | ⟨f, r, hfragment, hkey⟩
              · simp only [search, hchild, if_pos hlt, Option.some.injEq, reduceCtorEq] at hsearch
              · rw [hkey, search_step hchild hfragment] at hsearch
                rw [hkey, List.length_append, List.length_cons] at hrounds
                rw [hkey]
                exact .step hchild hfragment (ih (by omega) hsearch)

end Search

/-! ## A new leaf -/

section Leaf

variable [DecidableEq N] [DecidableEq K]

/-- Hang a leaf below a node. -/
def Trie.addLeaf (t : Trie N K) (a : N) (c : K) (n : N) (f : List K) : Trie N K where
  child := Function.update t.child a (Function.update (t.child a) c (some n))
  fragment := Function.update t.fragment n (c :: f)

variable {t : Trie N K} {rank : N → Nat} {a b d n : N} {c : K} {f r : List K}

/-- The children behind a new leaf: one more. -/
theorem Trie.child_addLeaf (x : N) (c' : K) :
    (t.addLeaf a c n f).child x c' = if x = a ∧ c' = c then some n else t.child x c' := by
  show Function.update t.child a _ x c' = _
  by_cases hx : x = a
  · subst hx
    rw [Function.update_self, Function.update_apply]
    simp only [true_and]
  · rw [Function.update_of_ne hx]
    simp only [hx, false_and, if_false]

/-- And the fragments. -/
theorem Trie.fragment_addLeaf (x : N) :
    (t.addLeaf a c n f).fragment x = if x = n then c :: f else t.fragment x :=
  Function.update_apply ..

/-- **A node is new**: it has no children, is no child, and ranks behind its parent. -/
structure NewLeaf (t : Trie N K) (rank : N → Nat) (a : N) (c : K) (n : N) : Prop where
  /-- its place is free -/
  vacant : t.child a c = none
  /-- it has no children -/
  childless : ∀ c', t.child n c' = none
  /-- it is nobody's child -/
  orphan : ∀ x c', t.child x c' ≠ some n
  /-- and it may be put behind its parent -/
  rank_lt : rank a < rank n

/-- A new leaf keeps the shape. -/
theorem Shape.addLeaf (h : Shape t rank) (hnew : NewLeaf t rank a c n) (f : List K) :
    Shape (t.addLeaf a c n f) rank := by
  refine ⟨fun {x y c'} hxy => ?_, fun {x y c'} hxy => ?_, fun {x x' y c' c''} hxy hxy' => ?_⟩
  · rw [Trie.child_addLeaf] at hxy
    split_ifs at hxy with hat
    · cases hxy
      rw [hat.1]
      exact hnew.rank_lt
    · exact h.rank_lt hxy
  · rw [Trie.child_addLeaf] at hxy
    rw [Trie.fragment_addLeaf]
    split_ifs at hxy with hat
    · cases hxy
      exact ⟨f, by rw [if_pos rfl, hat.2]⟩
    · rw [if_neg (by rintro rfl; exact hnew.orphan _ _ hxy)]
      exact h.starts hxy
  · rw [Trie.child_addLeaf] at hxy hxy'
    split_ifs at hxy hxy' with hat hat'
    · exact ⟨hat.1.trans hat'.1.symm, hat.2.trans hat'.2.symm⟩
    · cases hxy
      exact absurd hxy' (hnew.orphan _ _)
    · cases hxy'
      exact absurd hxy (hnew.orphan _ _)
    · exact h.parent hxy hxy'

/-- The leaf has no children. -/
theorem NewLeaf.eq_of_reach (hnew : NewLeaf t rank a c n) (h : Reach (t.addLeaf a c n f) n r d) :
    d = n := by
  cases h with
  | refl => rfl
  | step hchild _ _ =>
      rw [Trie.child_addLeaf, if_neg, hnew.childless] at hchild
      · cases hchild
      · rintro ⟨rfl, -⟩
        exact absurd hnew.rank_lt (lt_irrefl _)

/-- The words to the other nodes stay. -/
theorem NewLeaf.reach_iff (hnew : NewLeaf t rank a c n) (hd : d ≠ n) :
    Reach (t.addLeaf a c n f) b r d ↔ Reach t b r d := by
  constructor
  · intro h
    induction h with
    | refl => exact .refl _
    | @step x y d c' f' r hchild hfragment hrest ih =>
        have hy : y ≠ n := by
          rintro rfl
          exact hd (hnew.eq_of_reach hrest)
        rw [Trie.child_addLeaf] at hchild
        rw [Trie.fragment_addLeaf, if_neg hy] at hfragment
        split_ifs at hchild with hat
        · cases hchild
          exact absurd rfl hy
        · exact .step hchild hfragment (ih hd)
  · intro h
    induction h with
    | refl => exact .refl _
    | @step x y d c' f' r hchild hfragment _ ih =>
        refine .step ?_ ?_ (ih hd)
        · rw [Trie.child_addLeaf, if_neg, hchild]
          rintro ⟨rfl, rfl⟩
          rw [hnew.vacant] at hchild
          cases hchild
        · rw [Trie.fragment_addLeaf, if_neg, hfragment]
          rintro rfl
          exact hnew.orphan _ _ hchild

/-- The words to the leaf. -/
theorem NewLeaf.reach_leaf (hnew : NewLeaf t rank a c n) (h : Reach t b r a) :
    Reach (t.addLeaf a c n f) b (r ++ c :: f) n := by
  have hne : a ≠ n := by
    rintro rfl
    exact absurd hnew.rank_lt (lt_irrefl _)
  refine ((hnew.reach_iff hne).mpr h).trans (.single ?_ ?_)
  · rw [Trie.child_addLeaf, if_pos ⟨rfl, rfl⟩]
  · rw [Trie.fragment_addLeaf, if_pos rfl]

end Leaf

/-! ## A new fragment -/

section Rename

variable {t t' : Trie N K} {rank : N → Nat} {a b d : N} {c : K} {f r : List K}

/-- Two tries differ in the fragment of one node only. -/
structure SameBut (t t' : Trie N K) (b : N) : Prop where
  /-- the children are the same -/
  child : t'.child = t.child
  /-- and all other fragments -/
  fragment : ∀ x, x ≠ b → t'.fragment x = t.fragment x

/-- It does not matter which of the two is the older one. -/
theorem SameBut.symm (h : SameBut t t' b) : SameBut t' t b :=
  ⟨h.child.symm, fun x hx => (h.fragment x hx).symm⟩

/-- The words from the node itself stay, and from all nodes that do not rank before it. -/
theorem SameBut.reach_of_rank (h : SameBut t t' b) (hshape : Shape t rank)
    (hreach : Reach t a r d) (hrank : rank b ≤ rank a) : Reach t' a r d := by
  induction hreach with
  | refl => exact .refl _
  | @step x y d c f r hchild hfragment _ ih =>
      have hlt := hshape.rank_lt hchild
      refine .step (by rw [h.child]; exact hchild) ?_ (ih (by omega))
      rw [h.fragment y, hfragment]
      rintro rfl
      omega

/-- **The words to the nodes that are not below** the one whose fragment differs stay. -/
theorem SameBut.reach_of_not_below (h : SameBut t t' b) (hreach : Reach t a r d)
    (hbelow : ∀ r, ¬ Reach t b r d) : Reach t' a r d := by
  induction hreach with
  | refl => exact .refl _
  | @step x y d c f r hchild hfragment hrest ih =>
      refine .step (by rw [h.child]; exact hchild) ?_ (ih hbelow)
      rw [h.fragment y, hfragment]
      rintro rfl
      exact hbelow _ hrest

/-- What is reached is reached in a trie with the same children and fragments on the way. -/
theorem Reach.frame {x : N} (h : Shape t rank) (hreach : Reach t x r a)
    (hchild : ∀ y, rank y < rank a → t'.child y = t.child y)
    (hfragment : ∀ y, rank y ≤ rank a → t'.fragment y = t.fragment y) : Reach t' x r a := by
  induction hreach with
  | refl => exact .refl _
  | @step x y a c f r hxy hy hrest ih =>
      have hle := h.rank_le hrest
      have hlt := h.rank_lt hxy
      refine .step ?_ ?_ (ih hchild hfragment)
      · rw [hchild x (by omega), hxy]
      · rw [hfragment y hle, hy]

variable [DecidableEq N]

/-- Give a node another fragment. -/
def Trie.rename (t : Trie N K) (b : N) (f : List K) : Trie N K :=
  { t with fragment := Function.update t.fragment b f }

/-- Giving a node another fragment is such a difference. -/
theorem sameBut_rename (t : Trie N K) (b : N) (f : List K) : SameBut t (t.rename b f) b :=
  ⟨rfl, fun _ hx => Function.update_of_ne hx ..⟩

/-- A new fragment that starts with the symbol of the child keeps the shape. -/
theorem Shape.rename (h : Shape t rank) (hchild : t.child a c = some b) (f : List K) :
    Shape (t.rename b (c :: f)) rank := by
  refine ⟨h.rank_lt, fun {x y c'} hxy => ?_, h.parent⟩
  by_cases hy : y = b
  · subst hy
    obtain ⟨-, rfl⟩ := h.parent hxy hchild
    exact ⟨f, Function.update_self ..⟩
  · obtain ⟨f', hf'⟩ := h.starts hxy
    exact ⟨f', (Function.update_of_ne hy ..).trans hf'⟩

/-- **The words after a change of fragment**, to the nodes that are not below the node. -/
theorem Shape.reach_rename_iff (h : Shape t rank) (hchild : t.child a c = some b)
    (hbelow : ∀ r, ¬ Reach t b r d) {x : N} :
    Reach (t.rename b (c :: f)) x r d ↔ Reach t x r d := by
  have hsame := sameBut_rename t b (c :: f)
  refine ⟨fun hreach => hsame.symm.reach_of_not_below hreach fun r' hreach' => ?_,
    fun hreach => hsame.reach_of_not_below hreach hbelow⟩
  exact hbelow r' (hsame.symm.reach_of_rank (h.rename hchild f) hreach' le_rfl)

/-- The words to the node itself. -/
theorem Shape.reach_rename (h : Shape t rank) (hchild : t.child a c = some b) {x : N}
    (hreach : Reach t x r a) : Reach (t.rename b (c :: f)) x (r ++ c :: f) b := by
  have hbelow : ∀ r, ¬ Reach t b r a := fun _ => h.not_reach_of_child hchild le_rfl
  exact ((h.reach_rename_iff hchild hbelow).mpr hreach).trans
    (.single hchild (Function.update_self ..))

end Rename

end StopTrading.CompressedTrie
