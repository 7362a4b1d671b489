import StopTrading.Library.DepthFirst

/-!
# The dependency graph of the consumers

`DependencyGraph` holds for every consumer the consumers it depends on.  `would_create_cycle`
and `topological_sort` are the two depth-first searches of the library, on the dependencies as
successors.

`Recorded` says in terms of the calls which dependencies there are.  The cycle test and the
sort answer what they should (`cycleTests_exact`).  The sort however turns its list round at
the end, so that a consumer comes before what it depends on
(`topologicalSort_dependentsFirst`); dependencies come first only if there are none
(`startsInOrder_iff`).

### What is load-bearing

Both searches are of the library, `GraphSearch` for the cycle test and `DepthFirst` for the sort,
and are about a successor function.  What is particular here is in the lemmas on the edits: a
dependency is added even if it is there, and `clear` forgets those of one node and not those *on*
it.  `Recorded` says so in terms of the calls, with no graph in it.

The depth-first sort pushes a node behind its successors, so its list has the dependencies first.
The source then reverses it, as one does when edges point the other way.  So `StartsInOrder` can
hold only where there is nothing to put in order.
-/

namespace StopTrading.Disruptor

open DepthFirst GraphSearch TopologicalOrder Relation

/-- `DependencyGraph`.  The nodes are the numbers below `node_count`. -/
structure DependencyGraph (nodeCount : Nat) where
  dependencies : Vector (List (Fin nodeCount)) nodeCount

/-- A call that edits the graph. -/
inductive GraphCall where
  | add (node dependsOn : Nat)
  | clear (node : Nat)
  deriving DecidableEq

namespace DependencyGraph

variable {nodeCount : Nat}

/-- `new`. -/
def new (nodeCount : Nat) : DependencyGraph nodeCount := ⟨.replicate nodeCount []⟩

/-- `add_dependency`. -/
def addDependency (g : DependencyGraph nodeCount) (node dependsOn : Nat) :
    DependencyGraph nodeCount :=
  if h : node < nodeCount ∧ dependsOn < nodeCount then
    have hnode := h.1
    ⟨g.dependencies.set node (g.dependencies[node] ++ [⟨dependsOn, h.2⟩])⟩
  else g

/-- `clear_dependencies`. -/
def clearDependencies (g : DependencyGraph nodeCount) (node : Nat) : DependencyGraph nodeCount :=
  if h : node < nodeCount then ⟨g.dependencies.set node []⟩ else g

/-- `get_dependencies`. -/
def getDependencies (g : DependencyGraph nodeCount) (node : Nat) : List (Fin nodeCount) :=
  if h : node < nodeCount then g.dependencies[node] else []

/-- `self.dependencies[node]`. -/
def next (g : DependencyGraph nodeCount) (node : Fin nodeCount) : List (Fin nodeCount) :=
  g.dependencies[node]

/-- `would_create_cycle`; `none` if it panics, as the target is no node. -/
def wouldCreateCycle (g : DependencyGraph nodeCount) (source target : Nat) : Option Bool :=
  if source = target then some true
  else if h : target < nodeCount then
    (hasPath g.next (fun node => node.val = source) (nodeCount + 1) ⟨target, h⟩ ∅).map Prod.fst
  else none

/-- `topological_sort`. -/
def topologicalSort (g : DependencyGraph nodeCount) : Option (Option (List (Fin nodeCount))) :=
  (visitAll g.next (nodeCount + 1) (List.finRange nodeCount) .empty).map fun
    | (true, m) => some m.result.reverse
    | (false, _) => none

/-- What a call does. -/
def call (g : DependencyGraph nodeCount) : GraphCall → DependencyGraph nodeCount
  | .add node dependsOn => g.addDependency node dependsOn
  | .clear node => g.clearDependencies node

/-- The graph after some calls. -/
def built (nodeCount : Nat) (calls : List GraphCall) : DependencyGraph nodeCount :=
  calls.foldl call (new nodeCount)

/-! ## The dependencies there are -/

/-- **A dependency was added** and not cleared afterwards. -/
def Recorded (nodeCount : Nat) (calls : List GraphCall) (node dependsOn : Fin nodeCount) : Prop :=
  ∃ before after, calls = before ++ .add node dependsOn :: after ∧ .clear node ∉ after

/-- One call more. -/
theorem recorded_append {calls : List GraphCall} {c : GraphCall} {v w : Fin nodeCount} :
    Recorded nodeCount (calls ++ [c]) v w ↔
      c = .add v w ∨ (c ≠ .clear v ∧ Recorded nodeCount calls v w) := by
  constructor
  · rintro ⟨before, after, hsplit, hclear⟩
    rcases List.eq_nil_or_concat after with rfl | ⟨after, c', rfl⟩
    · exact .inl (List.head_eq_of_cons_eq (List.append_inj' hsplit rfl).2)
    · rw [List.concat_eq_append, ← List.cons_append, ← List.append_assoc] at hsplit
      obtain ⟨hcalls, hlast⟩ := List.append_inj' hsplit rfl
      rw [List.concat_eq_append, List.mem_append, not_or, List.mem_singleton] at hclear
      rw [List.head_eq_of_cons_eq hlast]
      exact .inr ⟨fun heq => hclear.2 heq.symm, before, after, hcalls, hclear.1⟩
  · rintro (rfl | ⟨hne, before, after, rfl, hclear⟩)
    · exact ⟨calls, [], rfl, List.not_mem_nil⟩
    · refine ⟨before, after ++ [c], by simp, fun hmem => ?_⟩
      rcases List.mem_append.mp hmem with hmem | hmem
      · exact hclear hmem
      · exact hne (List.mem_singleton.mp hmem).symm

section Edits

variable {g : DependencyGraph nodeCount} {v w : Fin nodeCount}

/-- A dependency that is added is there, -/
theorem mem_next_addDependency (node dependsOn : Nat) :
    w ∈ (g.addDependency node dependsOn).next v ↔
      (node = v ∧ dependsOn = w) ∨ w ∈ g.next v := by
  rw [addDependency]
  split
  · next h =>
    simp only [next, Fin.getElem_fin, Vector.getElem_set]
    by_cases hv : node = v.val
    · subst hv
      simp [Fin.ext_iff, or_comm, eq_comm]
    · simp [hv]
  · next h =>
    refine ⟨.inr, fun hmem => hmem.resolve_left ?_⟩
    rintro ⟨rfl, rfl⟩
    exact h ⟨v.isLt, w.isLt⟩

/-- those of a node that is cleared are not, -/
theorem mem_next_clearDependencies (node : Nat) :
    w ∈ (g.clearDependencies node).next v ↔ node ≠ v ∧ w ∈ g.next v := by
  rw [clearDependencies]
  split
  · next h =>
    simp only [next, Fin.getElem_fin, Vector.getElem_set]
    by_cases hv : node = v.val
    · simp [hv]
    · simp [hv]
  · next h =>
    refine ⟨fun hmem => ⟨?_, hmem⟩, And.right⟩
    rintro rfl
    exact h v.isLt

/-- and every call is one or the other. -/
theorem mem_next_call (c : GraphCall) :
    w ∈ (g.call c).next v ↔ c = .add v w ∨ (c ≠ .clear v ∧ w ∈ g.next v) := by
  cases c with
  | add node dependsOn =>
      rw [call, mem_next_addDependency]
      simp
  | clear node =>
      rw [call, mem_next_clearDependencies]
      simp

end Edits

/-- **The graph holds the dependencies that are recorded.** -/
theorem mem_next_built (calls : List GraphCall) (v w : Fin nodeCount) :
    w ∈ (built nodeCount calls).next v ↔ Recorded nodeCount calls v w := by
  induction calls using List.reverseRecOn with
  | nil =>
      refine iff_of_false ?_ ?_
      · simp [built, new, next]
      · rintro ⟨before, after, hsplit, -⟩
        simp at hsplit
  | append_singleton calls c ih =>
      rw [built, List.foldl_concat, mem_next_call, recorded_append]
      exact or_congr_right (and_congr_right fun _ => ih)

/-- `get_dependencies` returns them. -/
theorem getDependencies_eq (g : DependencyGraph nodeCount) (node : Fin nodeCount) :
    g.getDependencies node = g.next node := by
  rw [getDependencies, dif_pos node.isLt]
  rfl

/-! ## The searches -/

section Searches

/-- A search has a round for every node, and one more. -/
theorem card_lt (nodeCount : Nat) : Fintype.card (Fin nodeCount) < nodeCount + 1 := by
  rw [Fintype.card_fin]
  exact Nat.lt_succ_self nodeCount

variable (g : DependencyGraph nodeCount)

/-- **The cycle test.** -/
theorem wouldCreateCycle_eq (a b : Fin nodeCount) :
    ∃ answer, g.wouldCreateCycle a b = some answer ∧
      (answer = true ↔ a = b ∨ Reaches g.next b a) := by
  rw [wouldCreateCycle]
  split
  · next heq => exact ⟨true, rfl, iff_of_true rfl (.inl (Fin.ext heq))⟩
  · next hne =>
    obtain ⟨answer, visited, hpath, hanswer⟩ :=
      @hasPath_eq _ g.next (fun node => node.val = a.val) _ _ _ (nodeCount + 1) (card_lt _) b
    refine ⟨answer, ?_, ?_⟩
    · rw [dif_pos b.isLt, hpath]
      rfl
    · rw [hanswer]
      constructor
      · rintro ⟨w, hw, hreach⟩
        obtain rfl : w = a := Fin.ext hw
        exact .inr hreach
      · rintro (rfl | hreach)
        · exact absurd rfl hne
        · exact ⟨a, rfl, hreach⟩

/-- **The sort**: it fails on a cycle, and otherwise every node comes before what it depends
on. -/
theorem topologicalSort_eq :
    ∃ found, g.topologicalSort = some found ∧
      (found.isSome = true ↔ Acyclic fun v w => w ∈ g.next v) ∧
      ∀ order, found = some order →
        IsTopologicalOrder (fun v w => w ∈ g.next v) (List.finRange nodeCount) order := by
  obtain ⟨answer, m, hvisit, hanswer, horder⟩ :=
    @visitAll_eq _ g.next _ _ (nodeCount + 1) (card_lt _) _ (List.nodup_finRange nodeCount)
      List.mem_finRange
  rw [topologicalSort, hvisit]
  cases answer with
  | true =>
      refine ⟨some m.result.reverse, rfl, iff_of_true rfl (hanswer.mp rfl), ?_⟩
      rintro order ⟨⟩
      exact horder rfl
  | false =>
      exact ⟨none, rfl, iff_of_false nofun fun h => absurd (hanswer.mpr h) nofun, nofun⟩

end Searches

/-! ## After any calls -/

section Built

variable {calls : List GraphCall}

/-- The edges are the dependencies that are recorded. -/
theorem edges_built :
    (fun v w : Fin nodeCount => w ∈ (built nodeCount calls).next v) = Recorded nodeCount calls :=
  funext fun v => funext fun w => propext (mem_next_built calls v w)

/-- **A node comes before what it depends on.** -/
theorem topologicalSort_dependentsFirst (hacyclic : Acyclic (Recorded nodeCount calls)) :
    ∃ order, (built nodeCount calls).topologicalSort = some (some order) ∧
      IsTopologicalOrder (Recorded nodeCount calls) (List.finRange nodeCount) order := by
  obtain ⟨found, hsort, hsome, horder⟩ := (built nodeCount calls).topologicalSort_eq
  rw [edges_built] at hsome horder
  obtain ⟨order, rfl⟩ := Option.isSome_iff_exists.mp (hsome.mpr hacyclic)
  exact ⟨order, hsort, horder order rfl⟩

/-- **The cycle test and the sort are exact**, whatever calls have built the graph. -/
theorem cycleTests_exact (nodeCount : Nat) (calls : List GraphCall) :
    (∀ a b : Fin nodeCount, ∃ answer, (built nodeCount calls).wouldCreateCycle a b = some answer ∧
      (answer = true ↔ a = b ∨ ReflTransGen (Recorded nodeCount calls) b a)) ∧
    ∃ found, (built nodeCount calls).topologicalSort = some found ∧
      (found.isSome = true ↔ Acyclic (Recorded nodeCount calls)) ∧
      ∀ order, found = some order → ∀ node, order.count node = 1 := by
  constructor
  · intro a b
    rw [← edges_built]
    exact (built nodeCount calls).wouldCreateCycle_eq a b
  · obtain ⟨found, hsort, hsome, horder⟩ := (built nodeCount calls).topologicalSort_eq
    rw [edges_built] at hsome
    refine ⟨found, hsort, hsome, fun order heq node => ?_⟩
    rw [(horder order heq).perm.count_eq]
    exact List.count_eq_one_of_mem (List.nodup_finRange nodeCount) (List.mem_finRange node)

/-- **The order to start in**: the sort returns one, and every node appears after all nodes
it depends on. -/
def StartsInOrder (nodeCount : Nat) (calls : List GraphCall) : Prop :=
  ∃ order, (built nodeCount calls).topologicalSort = some (some order) ∧
    ∀ v w : Fin nodeCount, Recorded nodeCount calls v w → order.idxOf w < order.idxOf v

/-- **Dependencies come first only if there are none.** -/
theorem startsInOrder_iff (hacyclic : Acyclic (Recorded nodeCount calls)) :
    StartsInOrder nodeCount calls ↔ ∀ v w : Fin nodeCount, ¬ Recorded nodeCount calls v w := by
  obtain ⟨order, hsort, horder⟩ := topologicalSort_dependentsFirst hacyclic
  constructor
  · rintro ⟨order', hsort', hfirst⟩ v w hedge
    rw [hsort] at hsort'
    cases hsort'
    exact absurd (hfirst v w hedge) (horder.forward v w hedge).not_gt
  · exact fun hnone => ⟨order, hsort, fun v w hedge => absurd hedge (hnone v w)⟩

/-- The graph of `test_topological_sort`. -/
def chain : List GraphCall := [.add 0 1, .add 1 2]

/-- Its sort begins with the node that depends on the next. -/
theorem topologicalSort_chain : (built 3 chain).topologicalSort = some (some [0, 1, 2]) := by
  decide

/-- There is an order to start in, -/
theorem acyclic_chain : Acyclic (Recorded 3 chain) := by
  obtain ⟨found, hfound, hsome, -⟩ := (built 3 chain).topologicalSort_eq
  rw [topologicalSort_chain] at hfound
  cases hfound
  rw [edges_built] at hsome
  exact hsome.mp rfl

/-- there is a dependency, -/
theorem recorded_chain : Recorded 3 chain 0 1 :=
  ⟨[], [.add 1 2], rfl, by decide⟩

/-- and the sort does not start with it. -/
theorem not_startsInOrder_chain : ¬ StartsInOrder 3 chain :=
  fun h => (startsInOrder_iff acyclic_chain).mp h 0 1 recorded_chain

/-- **The order is the other way round.** -/
theorem not_forall_startsInOrder :
    ¬ ∀ (nodeCount : Nat) (calls : List GraphCall),
        Acyclic (Recorded nodeCount calls) → StartsInOrder nodeCount calls := by
  intro hall
  obtain ⟨order, hsort, hfirst⟩ := hall 3 chain acyclic_chain
  rw [topologicalSort_chain] at hsort
  cases hsort
  exact absurd (hfirst 0 1 recorded_chain) (by decide)

end Built

end DependencyGraph

end StopTrading.Disruptor
