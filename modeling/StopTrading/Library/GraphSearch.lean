import Mathlib.Algebra.BigOperators.Group.Finset.Basic
import Mathlib.Data.Finset.Card
import Mathlib.Logic.Relation
import Mathlib.Order.WellFoundedSet
import Mathlib.Tactic.Common

/-!
# Searching a directed graph

A graph is a function `next` from a node to the list of its successors.  `search` is the
depth-first search with a stack and a set of visited nodes: it pops a node, stops if that is
the target, skips it if it was visited and otherwise marks it and pushes its successors.  It
is run with a number of rounds.

* `search_eq_some_iff` — what it answers is whether the target is reachable.
* `search_isSome` — when only finitely many nodes have successors, a round for every node on
  the stack and for every edge is enough.

The last part is about relations without cycles: `Acyclic` and what a new pair does to it
(`Acyclic.insert`).

### What is load-bearing

There are two results about `search`, and they are proved apart.  *What it answers* needs no
bound on the graph: if a run with some number of rounds answers at all, the answer is right.  The
invariant is not about visited nodes but about what is still to be asked: whether some node that
was seen reaches the target does not change when a node moves from the stack to the visited ones
(`someReaches_visit`), nor when an old one is dropped (`someReaches_skip`).  *That it answers* is
a count of the edges that have not been pushed.

The part about relations is what a program that adds one edge at a time needs: the edge is
refused exactly if its target reaches its source, and `Acyclic.insert` says that this is the
right test.
-/

namespace StopTrading.GraphSearch

universe u

variable {V : Type u}

open Relation

/-- There are edges that lead from one node to the other. -/
def Reaches (next : V → List V) : V → V → Prop := ReflTransGen fun v w => w ∈ next v

variable {next : V → List V} {target : V}

/-- A set of nodes that is closed up to the stack and does not have the target. -/
structure Explored (next : V → List V) (target : V) (visited : Finset V) (stack : List V) :
    Prop where
  /-- the target has not been passed over -/
  target : target ∉ visited
  /-- a successor was seen as well -/
  closed : ∀ v ∈ visited, ∀ w ∈ next v, w ∈ visited ∨ w ∈ stack

/-- Some node that was seen reaches the target. -/
def SomeReaches (next : V → List V) (target : V) (visited : Finset V) (stack : List V) : Prop :=
  ∃ v, (v ∈ visited ∨ v ∈ stack) ∧ Reaches next v target

/-- A node that was visited can be dropped from the stack. -/
theorem Explored.skip {visited : Finset V} {stack : List V} {current : V}
    (h : Explored next target visited (current :: stack)) (old : current ∈ visited) :
    Explored next target visited stack := by
  refine ⟨h.target, fun v hv w hw => ?_⟩
  rcases h.closed v hv w hw with hvisited | hstack
  -- a successor that waited on the stack may be the node that is skipped
  · exact Or.inl hvisited
  · rcases List.mem_cons.mp hstack with rfl | hstack
    · exact Or.inl old
    · exact Or.inr hstack

/-- A closed set does not reach what is not in it. -/
theorem Explored.not_reaches {visited : Finset V} (h : Explored next target visited []) :
    ¬ SomeReaches next target visited [] := by
  rintro ⟨v, hv | hv, hreach⟩
  · refine h.target ?_
    -- with nothing left on the stack a path cannot leave the nodes that were seen
    have keeps : ∀ w, Reaches next v w → w ∈ visited := by
      intro w hw
      induction hw with
      | refl => exact hv
      | tail _ hedge ih => exact (h.closed _ ih _ hedge).resolve_right List.not_mem_nil
    exact keeps target hreach
  · exact absurd hv List.not_mem_nil

/-- An old node reaches nothing that is not reached otherwise. -/
theorem someReaches_skip {visited : Finset V} {stack : List V} {current : V}
    (old : current ∈ visited) :
    SomeReaches next target visited (current :: stack) ↔ SomeReaches next target visited stack := by
  refine exists_congr fun v => and_congr_left fun _ => ?_
  rw [List.mem_cons]
  constructor
  · rintro (h | rfl | h)
    · exact Or.inl h
    · exact Or.inl old
    · exact Or.inr h
  · rintro (h | h)
    · exact Or.inl h
    · exact Or.inr (Or.inr h)

section Search

variable [DecidableEq V]

/-- **Depth-first search** for a target; the top of the stack is its head, so successors are
pushed in reverse. -/
def search (next : V → List V) (target : V) : Nat → Finset V → List V → Option Bool
  | _, _, [] => some false
  | 0, _, _ :: _ => none
  | rounds + 1, visited, current :: stack =>
      if current = target then some true
      else if current ∈ visited then search next target rounds visited stack
      else search next target rounds (insert current visited) ((next current).reverse ++ stack)

/-- Visiting a node keeps the visited set closed up to the stack. -/
theorem Explored.visit {visited : Finset V} {stack : List V} {current : V}
    (h : Explored next target visited (current :: stack)) (other : current ≠ target) :
    Explored next target (insert current visited) ((next current).reverse ++ stack) := by
  refine ⟨fun hmem => ?_, fun v hv w hw => ?_⟩
  · rcases Finset.mem_insert.mp hmem with heq | hvisited
    · exact other heq.symm
    · exact h.target hvisited
  · rcases Finset.mem_insert.mp hv with rfl | hvisited
    · exact Or.inr (List.mem_append_left _ (List.mem_reverse.mpr hw))
    · rcases h.closed v hvisited w hw with hw | hw
      · exact Or.inl (Finset.mem_insert_of_mem hw)
      · rcases List.mem_cons.mp hw with rfl | hw
        · exact Or.inl (Finset.mem_insert_self w visited)
        · exact Or.inr (List.mem_append_right _ hw)

/-- **A node is exchanged for its successors**, and the question stays the same. -/
theorem someReaches_visit {visited : Finset V} {stack : List V} {current : V} :
    SomeReaches next target visited (current :: stack) ↔
      SomeReaches next target (insert current visited) ((next current).reverse ++ stack) := by
  constructor
  · rintro ⟨v, hv | hv, hreach⟩
    · exact ⟨v, Or.inl (Finset.mem_insert_of_mem hv), hreach⟩
    · rcases List.mem_cons.mp hv with rfl | hv
      · exact ⟨v, Or.inl (Finset.mem_insert_self v visited), hreach⟩
      · exact ⟨v, Or.inr (List.mem_append_right _ hv), hreach⟩
  · rintro ⟨v, hv | hv, hreach⟩
    · rcases Finset.mem_insert.mp hv with rfl | hv
      · exact ⟨v, Or.inr List.mem_cons_self, hreach⟩
      · exact ⟨v, Or.inl hv, hreach⟩
    · rcases List.mem_append.mp hv with hv | hv
      · -- a successor of the node that was popped: that node reaches the target too
        exact ⟨current, Or.inr List.mem_cons_self,
          ReflTransGen.head (List.mem_reverse.mp hv) hreach⟩
      · exact ⟨v, Or.inr (List.mem_cons_of_mem _ hv), hreach⟩

/-- **What the search answers**, by induction on the rounds: the nodes that were seen keep
the same answer. -/
theorem search_eq_true_iff {rounds : Nat} {visited : Finset V} {stack : List V} {answer : Bool}
    (h : Explored next target visited stack)
    (hsearch : search next target rounds visited stack = some answer) :
    answer = true ↔ SomeReaches next target visited stack := by
  induction rounds generalizing visited stack with
  | zero =>
      cases stack with
      | nil =>
          obtain rfl : false = answer := Option.some.inj hsearch
          exact iff_of_false (by decide) h.not_reaches
      | cons current stack => simp only [search, reduceCtorEq] at hsearch
  | succ rounds ih =>
      cases stack with
      | nil =>
          obtain rfl : false = answer := Option.some.inj hsearch
          exact iff_of_false (by decide) h.not_reaches
      | cons current stack =>
          rw [search] at hsearch
          split_ifs at hsearch with htarget hvisited
          -- found; seen before; seen now, with its successors still to come
          · obtain rfl : true = answer := Option.some.inj hsearch
            exact iff_of_true rfl ⟨current, Or.inr List.mem_cons_self, htarget ▸ .refl⟩
          · rw [ih (h.skip hvisited) hsearch, someReaches_skip hvisited]
          · rw [ih (h.visit htarget) hsearch, ← someReaches_visit]

/-- The search from one node. -/
theorem search_eq_some_iff {rounds : Nat} {source : V} {answer : Bool}
    (hsearch : search next target rounds ∅ [source] = some answer) :
    answer = true ↔ Reaches next source target := by
  have hstart : Explored next target ∅ [source] :=
    ⟨Finset.notMem_empty target, fun v hv => absurd hv (Finset.notMem_empty v)⟩
  rw [search_eq_true_iff hstart hsearch]
  constructor
  · rintro ⟨v, hv | hv, hreach⟩
    · exact absurd hv (Finset.notMem_empty v)
    · rwa [List.mem_singleton.mp hv] at hreach
  · exact fun hreach => ⟨source, Or.inr List.mem_cons_self, hreach⟩

/-- The edges that leave nodes of a finite set which were not visited. -/
def edgesLeft (next : V → List V) (support visited : Finset V) : Nat :=
  ∑ v ∈ support \ visited, (next v).length

/-- A node that is visited gives up its edges. -/
theorem edgesLeft_insert {support visited : Finset V} {current : V} (new : current ∉ visited)
    (hsupport : ∀ v, v ∉ support → next v = []) :
    edgesLeft next support (insert current visited) + (next current).length =
      edgesLeft next support visited := by
  unfold edgesLeft
  by_cases hmem : current ∈ support
  · have hleft : current ∈ support \ visited := Finset.mem_sdiff.mpr ⟨hmem, new⟩
    rw [Finset.sdiff_insert, Finset.sum_erase_add _ _ hleft]
  · have hnot : current ∉ support \ visited := fun h => hmem (Finset.mem_sdiff.mp h).1
    rw [Finset.sdiff_insert, Finset.erase_eq_of_notMem hnot, hsupport current hmem]
    rfl

/-- **Rounds enough**: every round pops a node, and a node that is not skipped has its edges
pushed once. -/
theorem search_isSome (support : Finset V) (hsupport : ∀ v, v ∉ support → next v = [])
    {rounds : Nat} {visited : Finset V} {stack : List V}
    (enough : stack.length + edgesLeft next support visited ≤ rounds) :
    (search next target rounds visited stack).isSome = true := by
  induction rounds generalizing visited stack with
  | zero =>
      cases stack with
      | nil => rfl
      | cons current stack =>
          rw [List.length_cons] at enough
          omega
  | succ rounds ih =>
      cases stack with
      | nil => rfl
      | cons current stack =>
          rw [List.length_cons] at enough
          rw [search]
          split_ifs with htarget hvisited
          · rfl
          · exact ih (by omega)
          · have hleft := edgesLeft_insert hvisited hsupport
            refine ih ?_
            rw [List.length_append, List.length_reverse]
            omega

end Search

/-! ## Relations without cycles -/

/-- **No node leads to itself.** -/
def Acyclic (r : V → V → Prop) : Prop := ∀ v, ¬ TransGen r v v

/-- Fewer edges close no more cycles. -/
theorem Acyclic.mono {r r' : V → V → Prop} (h : Acyclic r') (hle : ∀ v w, r v w → r' v w) :
    Acyclic r :=
  fun v hcycle => h v (TransGen.mono hle v v hcycle)

/-- A path in a relation with a new pair avoids the pair or passes it. -/
theorem transGen_insert {r : V → V → Prop} {a b v w : V}
    (h : TransGen (fun x y => r x y ∨ (x = a ∧ y = b)) v w) :
    TransGen r v w ∨ (ReflTransGen r v a ∧ ReflTransGen r b w) := by
  induction h with
  | single hedge =>
      rcases hedge with hold | ⟨rfl, rfl⟩
      · exact Or.inl (.single hold)
      · exact Or.inr ⟨.refl, .refl⟩
  | tail _ hedge ih =>
      rcases hedge with hold | ⟨rfl, rfl⟩
      · exact ih.imp (·.tail hold) fun h => ⟨h.1, h.2.tail hold⟩
      · rcases ih with hpath | ⟨hpath, -⟩
        · exact Or.inr ⟨hpath.to_reflTransGen, .refl⟩
        · exact Or.inr ⟨hpath, .refl⟩

/-- **A new pair closes no cycle** if its second node does not lead back to the first. -/
theorem Acyclic.insert {r : V → V → Prop} (h : Acyclic r) {a b : V}
    (hback : ¬ ReflTransGen r b a) : Acyclic fun x y => r x y ∨ (x = a ∧ y = b) := by
  intro v hcycle
  rcases transGen_insert hcycle with hold | ⟨hto, hfrom⟩
  · exact h v hold
  · exact hback (hfrom.trans hto)

/-- **A node without successors closes no cycle**: pairs away from it are old ones. -/
theorem Acyclic.of_sink {r r' : V → V → Prop} (h : Acyclic r) {c : V}
    (sink : ∀ v w, r' v w → v ≠ c) (old : ∀ v w, r' v w → w ≠ c → r v w) : Acyclic r' := by
  have hpath : ∀ v w, TransGen r' v w → w ≠ c → TransGen r v w := by
    intro v w hpath
    induction hpath with
    | single hedge => exact fun hw => .single (old _ _ hedge hw)
    | tail _ hedge ih => exact fun hw => (ih (sink _ _ hedge)).tail (old _ _ hedge hw)
  intro v hcycle
  obtain ⟨w, hedge, -⟩ := TransGen.head'_iff.mp hcycle
  exact h v (hpath v v hcycle (sink v w hedge))

/-- **A finite set has a node that no node of it leads to.** -/
theorem Acyclic.exists_source {r : V → V → Prop} (h : Acyclic r) {s : Finset V}
    (nonempty : s.Nonempty) : ∃ w ∈ s, ∀ v ∈ s, ¬ r v w := by
  have hstrict : IsStrictOrder V (TransGen r) :=
    { irrefl := h, trans := fun _ _ _ => TransGen.trans }
  obtain ⟨⟨w, hw⟩, -, hmin⟩ := (s.wellFoundedOn (r := TransGen r)).has_min Set.univ
    ⟨⟨_, nonempty.choose_spec⟩, trivial⟩
  exact ⟨w, hw, fun v hv hedge => hmin ⟨v, hv⟩ trivial (TransGen.single hedge)⟩

end StopTrading.GraphSearch
