import StopTrading.Library.FiniteMap
import StopTrading.Library.GraphSearch
import StopTrading.Library.Transition
import Mathlib.Algebra.GroupWithZero.Nat

/-!
# The strategy graph

`StrategyDag` keeps its nodes in a map from their ids.  A node has a list of inputs and a
list of outputs; an edge is recorded at both of its ends, and `in_degree` counts the edges
that end at a node.  `add_edge` searches the outputs before it records an edge, and
`remove_node` takes a node out of the map and nothing else: the lists of the others may go on
naming it.

Names that lead nowhere do not matter to the search.  It finds out whether one existing node
is reachable from another over existing ones (`wouldCreateCycle_eq_some`), and no sequence of
operations builds a cycle (`addEdge_exact`).  Ids are 64-bit words and may come back after a
wrap; a new node has no outputs, so that even one that inherits names is on no cycle.

An operation is `none` when it does not return: the search takes rounds, and it is given one
for its start and one for every recorded output.

### What is load-bearing

The lists of a node are names, and not all names are nodes.  `Edge` is therefore a name of an
existing node in the outputs of an existing node, and `reaches_iff_reachable` says that the
search, which follows names, sees the same paths as one that follows edges, as long as it ends at
an existing node.  With it `Library.GraphSearch` gives the exactness of `would_create_cycle` and
its termination.

Two edits can add edges.  An insertion asks the search first.  A new node asks nothing, and if
its id is one that others already name, there are edges *to* it at once; it is on no cycle
because there are none from it (`acyclic_addNode`).

### Design decisions

* A graph has no invariant as a field.  After a removal its lists disagree, and the source goes
  on from there; what survives all edits is the absence of cycles, which is proved about runs.
* The search is given rounds, and the model says `none` when they run out.  That they never do is
  a part of the result.
-/

namespace StopTrading.Strategy

open Relation GraphSearch

universe u

variable {F : Type u}

/-- `NodeData`. -/
inductive NodeData (F : Type u) where
  | f64 (v : F)
  | f64Array (v : Vector F 8)
  | i64 (v : Int)
  | bool (v : Bool)
  | bytes (v : List UInt8)
  deriving Repr, DecidableEq

/-- `MathOperation`. -/
inductive MathOperation where
  | add | subtract | multiply | divide | sqrt | log | exp | abs | negate
  deriving Repr, DecidableEq

/-- `StatOperation`. -/
inductive StatOperation where
  | mean | stdDev | variance | correlation | covariance | zScore
  deriving Repr, DecidableEq

/-- `Direction`. -/
inductive Direction where
  | above | below
  deriving Repr, DecidableEq

/-- `SignalType`. -/
inductive SignalType (F : Type u) where
  | thresholdCross (threshold : F) (direction : Direction)
  | movingAverageCross
  | rsiOverbought (level : F)
  | rsiOversold (level : F)
  deriving Repr, DecidableEq

/-- `AggregateType`. -/
inductive AggregateType where
  | sum | max | min | average | concat
  deriving Repr, DecidableEq

/-- `NodeType`. -/
inductive NodeType (F : Type u) where
  | input
  | math (op : MathOperation)
  | statistics (op : StatOperation)
  | signal (sig : SignalType F)
  | aggregate (agg : AggregateType)
  | output
  deriving Repr, DecidableEq

/-- `DagNode`. -/
structure DagNode (F : Type u) where
  id : Nat
  name : String
  nodeType : NodeType F
  inputs : List Nat
  outputs : List Nat
  inDegree : Nat
  deriving Repr, DecidableEq

/-- `DagNode::new`. -/
def DagNode.new (id : Nat) (name : String) (nodeType : NodeType F) : DagNode F :=
  ⟨id, name, nodeType, [], [], 0⟩

/-- `StrategyDag`. -/
structure StrategyDag (F : Type u) where
  nodes : AList fun _ : Nat => DagNode F
  nextNodeId : Nat
  topoOrder : List Nat
  dirty : Bool

/-- `MAX_DAG_NODES`. -/
def maxDagNodes : Nat := 1024

namespace StrategyDag

/-- `StrategyDag::new`. -/
def new : StrategyDag F := ⟨∅, 1, [], true⟩

/-- `add_node`. -/
def addNode (g : StrategyDag F) (name : String) (nodeType : NodeType F) :
    Option Nat × StrategyDag F :=
  if g.nodes.keys.length ≥ maxDagNodes then (none, g)
  else
    (some g.nextNodeId,
      { g with
        nodes := g.nodes.insert g.nextNodeId (.new g.nextNodeId name nodeType)
        nextNodeId := (g.nextNodeId + 1) % 2 ^ 64
        dirty := true })

/-- The outputs of a node, none if there is no such node. -/
def outputsOf (g : StrategyDag F) (v : Nat) : List Nat :=
  match g.nodes.lookup v with
  | some node => node.outputs
  | none => []

/-- A round for the start of the search and one for every output. -/
def searchRounds (g : StrategyDag F) : Nat :=
  1 + (g.nodes.keys.map fun v => (g.outputsOf v).length).sum

/-- `would_create_cycle`: the search for `from` among what `to` leads to. -/
def wouldCreateCycle (g : StrategyDag F) (fromId toId : Nat) : Option Bool :=
  if fromId = toId then some true
  else search g.outputsOf fromId g.searchRounds ∅ [toId]

/-- An edge is recorded at both of its ends. -/
def recordEdge (g : StrategyDag F) (fromId toId : Nat) (fromNode toNode : DagNode F) :
    StrategyDag F :=
  { g with
    nodes :=
      (g.nodes.insert fromId { fromNode with outputs := fromNode.outputs ++ [toId] }).insert toId
        { toNode with inputs := toNode.inputs ++ [fromId], inDegree := toNode.inDegree + 1 }
    dirty := true }

/-- `add_edge`. -/
def addEdge (g : StrategyDag F) (fromId toId : Nat) : Option (Bool × StrategyDag F) :=
  match g.nodes.lookup fromId, g.nodes.lookup toId with
  | some fromNode, some toNode =>
      (g.wouldCreateCycle fromId toId).map fun cycle =>
        if cycle = true then (false, g) else (true, g.recordEdge fromId toId fromNode toNode)
  -- a node that is not there, `?` in the source
  | _, _ => some (false, g)

/-- `remove_node`. -/
def removeNode (g : StrategyDag F) (id : Nat) : Bool × StrategyDag F :=
  match g.nodes.lookup id with
  | some _ => (true, { g with nodes := g.nodes.erase id, dirty := true })
  | none => (false, g)

/-- The operations that edit a graph. -/
inductive Edit (F : Type u) where
  | addNode (name : String) (nodeType : NodeType F)
  | addEdge (fromId toId : Nat)
  | removeNode (id : Nat)
  deriving Repr, DecidableEq

/-- What an edit leaves. -/
def step (g : StrategyDag F) : Edit F → Option (StrategyDag F)
  | .addNode name nodeType => some (g.addNode name nodeType).2
  | .addEdge fromId toId => (g.addEdge fromId toId).map (·.2)
  | .removeNode id => some (g.removeNode id).2

/-! ## Edges -/

/-- **An edge between existing nodes.** -/
def Edge (g : StrategyDag F) (v w : Nat) : Prop := v ∈ g.nodes ∧ w ∈ g.nodes ∧ w ∈ g.outputsOf v

/-- A path over existing nodes. -/
def Reachable (g : StrategyDag F) : Nat → Nat → Prop := ReflTransGen g.Edge

/-- The outputs of a node that is there, -/
theorem outputsOf_of_lookup {g : StrategyDag F} {v : Nat} {node : DagNode F}
    (h : g.nodes.lookup v = some node) : g.outputsOf v = node.outputs := by
  simp only [outputsOf, h]

/-- of one that is not, -/
theorem outputsOf_of_not_mem {g : StrategyDag F} {v : Nat} (h : v ∉ g.nodes) :
    g.outputsOf v = [] := by
  simp only [outputsOf, AList.lookup_eq_none.mpr h]

/-- and so only existing nodes have any. -/
theorem mem_nodes_of_mem_outputsOf {g : StrategyDag F} {v w : Nat} (h : w ∈ g.outputsOf v) :
    v ∈ g.nodes := by
  by_contra hv
  rw [outputsOf_of_not_mem hv] at h
  exact List.not_mem_nil h

/-- Names that lead nowhere lie on no path to an existing node. -/
theorem reaches_iff_reachable {g : StrategyDag F} {v target : Nat} (exists' : target ∈ g.nodes) :
    Reaches g.outputsOf v target ↔ g.Reachable v target := by
  constructor
  · intro h
    have hexists : g.Reachable v target ∧ v ∈ g.nodes := by
      induction h using ReflTransGen.head_induction_on with
      | refl => exact ⟨.refl, exists'⟩
      | head hedge _ ih =>
          have hmem := mem_nodes_of_mem_outputsOf hedge
          exact ⟨ih.1.head ⟨hmem, ih.2, hedge⟩, hmem⟩
    exact hexists.1
  · exact ReflTransGen.mono (fun _ _ hedge => hedge.2.2) v target

/-! ## The search -/

/-- **The search returns**: its rounds are enough. -/
theorem wouldCreateCycle_isSome (g : StrategyDag F) (fromId toId : Nat) :
    (g.wouldCreateCycle fromId toId).isSome = true := by
  unfold wouldCreateCycle
  split_ifs
  · rfl
  · refine search_isSome g.nodes.keys.toFinset (fun v hv => ?_) ?_
    · refine outputsOf_of_not_mem fun hmem => hv ?_
      exact List.mem_toFinset.mpr (AList.mem_keys.mp hmem)
    · rw [edgesLeft, Finset.sdiff_empty, List.sum_toFinset _ g.nodes.keys_nodup]
      exact le_rfl

/-- **The search is exact** for existing nodes. -/
theorem wouldCreateCycle_eq_some {g : StrategyDag F} {fromId toId : Nat} {cycle : Bool}
    (exists' : fromId ∈ g.nodes) (h : g.wouldCreateCycle fromId toId = some cycle) :
    cycle = true ↔ fromId = toId ∨ g.Reachable toId fromId := by
  unfold wouldCreateCycle at h
  split_ifs at h with hsame
  · obtain rfl : true = cycle := Option.some.inj h
    exact iff_of_true rfl (Or.inl hsame)
  · rw [search_eq_some_iff h, reaches_iff_reachable exists']
    exact (or_iff_right hsame).symm

/-! ## What an edit does to the edges -/

/-- An edge adds no node, -/
theorem mem_recordEdge {g : StrategyDag F} {fromId toId : Nat} {fromNode toNode : DagNode F}
    (hfrom : g.nodes.lookup fromId = some fromNode) (hto : g.nodes.lookup toId = some toNode)
    (v : Nat) : v ∈ (g.recordEdge fromId toId fromNode toNode).nodes ↔ v ∈ g.nodes := by
  simp only [recordEdge, AList.mem_insert]
  constructor
  · rintro (rfl | rfl | h)
    · exact FiniteMap.mem_of_lookup hto
    · exact FiniteMap.mem_of_lookup hfrom
    · exact h
  · exact fun h => Or.inr (Or.inr h)

/-- and one output to its start. -/
theorem outputsOf_recordEdge {g : StrategyDag F} {fromId toId : Nat} {fromNode toNode : DagNode F}
    (hfrom : g.nodes.lookup fromId = some fromNode) (hto : g.nodes.lookup toId = some toNode)
    (different : fromId ≠ toId) (v : Nat) :
    (g.recordEdge fromId toId fromNode toNode).outputsOf v =
      if v = fromId then g.outputsOf v ++ [toId] else g.outputsOf v := by
  by_cases hv : v = toId
  · subst hv
    rw [if_neg different.symm, outputsOf_of_lookup hto]
    simp [outputsOf, recordEdge]
  · by_cases hv' : v = fromId
    · subst hv'
      rw [if_pos rfl, outputsOf_of_lookup hfrom]
      simp [outputsOf, recordEdge, AList.lookup_insert_ne hv]
    · rw [if_neg hv']
      simp [outputsOf, recordEdge, AList.lookup_insert_ne hv, AList.lookup_insert_ne hv']

/-- The new edge is one edge more. -/
theorem edge_recordEdge {g : StrategyDag F} {fromId toId : Nat} {fromNode toNode : DagNode F}
    (hfrom : g.nodes.lookup fromId = some fromNode) (hto : g.nodes.lookup toId = some toNode)
    (different : fromId ≠ toId) (v w : Nat) :
    (g.recordEdge fromId toId fromNode toNode).Edge v w ↔
      g.Edge v w ∨ (v = fromId ∧ w = toId) := by
  unfold Edge
  rw [mem_recordEdge hfrom hto, mem_recordEdge hfrom hto,
    outputsOf_recordEdge hfrom hto different]
  split_ifs with hv
  · subst hv
    rw [List.mem_append, List.mem_singleton]
    constructor
    · rintro ⟨hv, hw, hold | rfl⟩
      · exact Or.inl ⟨hv, hw, hold⟩
      · exact Or.inr ⟨rfl, rfl⟩
    · rintro (⟨hv, hw, hold⟩ | ⟨-, rfl⟩)
      · exact ⟨hv, hw, Or.inl hold⟩
      · exact ⟨FiniteMap.mem_of_lookup hfrom, FiniteMap.mem_of_lookup hto, Or.inr rfl⟩
  · exact ⟨Or.inl, fun h => h.resolve_right fun h => hv h.1⟩

/-- A new node has no outputs. -/
theorem outputsOf_addNode {g : StrategyDag F} (room : ¬ g.nodes.keys.length ≥ maxDagNodes)
    (name : String) (nodeType : NodeType F) (v : Nat) :
    (g.addNode name nodeType).2.outputsOf v =
      if v = g.nextNodeId then [] else g.outputsOf v := by
  simp only [addNode, if_neg room]
  split_ifs with hv
  · subst hv
    simp [outputsOf, DagNode.new]
  · simp [outputsOf, AList.lookup_insert_ne hv]

/-- A new node is one node more. -/
theorem mem_addNode {g : StrategyDag F} (room : ¬ g.nodes.keys.length ≥ maxDagNodes)
    (name : String) (nodeType : NodeType F) (v : Nat) :
    v ∈ (g.addNode name nodeType).2.nodes ↔ v = g.nextNodeId ∨ v ∈ g.nodes := by
  simp only [addNode, if_neg room]
  exact AList.mem_insert g.nodes

/-- A node takes its edges with it. -/
theorem edge_removeNode {g : StrategyDag F} {id v w : Nat} (h : (g.removeNode id).2.Edge v w) :
    g.Edge v w := by
  unfold removeNode at h
  split at h
  · obtain ⟨hv, hw, hout⟩ := h
    have hne : v ≠ id := (AList.mem_erase.mp hv).1
    refine ⟨(AList.mem_erase.mp hv).2, (AList.mem_erase.mp hw).2, ?_⟩
    simpa [outputsOf, AList.lookup_erase_ne hne] using hout
  · exact h

/-! ## No cycles -/

/-- An empty graph has no cycles, -/
theorem acyclic_new : Acyclic (new : StrategyDag F).Edge := by
  intro v hcycle
  obtain ⟨w, hedge, -⟩ := TransGen.head'_iff.mp hcycle
  exact absurd hedge.1 (AList.notMem_empty v)

/-- and a new node is on none. -/
theorem acyclic_addNode {g : StrategyDag F} (h : Acyclic g.Edge) (name : String)
    (nodeType : NodeType F) : Acyclic (g.addNode name nodeType).2.Edge := by
  by_cases room : g.nodes.keys.length ≥ maxDagNodes
  · simpa only [addNode, if_pos room] using h
  · -- the new node has no outputs, and other edges are old
    have sink : ∀ v w, (g.addNode name nodeType).2.Edge v w → v ≠ g.nextNodeId := by
      rintro v w ⟨-, -, hout⟩ rfl
      rw [outputsOf_addNode room, if_pos rfl] at hout
      exact List.not_mem_nil hout
    refine h.of_sink sink fun v w hedge hw => ?_
    have hv := sink v w hedge
    obtain ⟨hvMem, hwMem, hout⟩ := hedge
    rw [mem_addNode room] at hvMem hwMem
    rw [outputsOf_addNode room, if_neg hv] at hout
    exact ⟨hvMem.resolve_left hv, hwMem.resolve_left hw, hout⟩

/-- **What `add_edge` does** to existing nodes: it rejects an edge that would close a cycle
and records any other. -/
theorem addEdge_of_lookup {g : StrategyDag F} {fromId toId : Nat} {fromNode toNode : DagNode F}
    (hfrom : g.nodes.lookup fromId = some fromNode) (hto : g.nodes.lookup toId = some toNode) :
    (g.addEdge fromId toId = some (false, g) ∧ (fromId = toId ∨ g.Reachable toId fromId)) ∨
      (g.addEdge fromId toId = some (true, g.recordEdge fromId toId fromNode toNode) ∧
        fromId ≠ toId ∧ ¬ g.Reachable toId fromId) := by
  obtain ⟨cycle, hcycle⟩ := Option.isSome_iff_exists.mp (g.wouldCreateCycle_isSome fromId toId)
  have hexact := wouldCreateCycle_eq_some (FiniteMap.mem_of_lookup hfrom) hcycle
  simp only [addEdge, hfrom, hto, hcycle, Option.map_some]
  cases cycle with
  | true => exact Or.inl ⟨rfl, hexact.mp rfl⟩
  | false => exact Or.inr ⟨rfl, not_or.mp fun h => absurd (hexact.mpr h) (by decide)⟩

/-- An edit returns and keeps the graph without cycles. -/
theorem acyclic_step {g : StrategyDag F} (h : Acyclic g.Edge) (e : Edit F) :
    ∃ g', g.step e = some g' ∧ Acyclic g'.Edge := by
  cases e with
  | addNode name nodeType => exact ⟨_, rfl, acyclic_addNode h name nodeType⟩
  | removeNode id => exact ⟨_, rfl, h.mono fun _ _ => edge_removeNode⟩
  | addEdge fromId toId =>
      cases hfrom : g.nodes.lookup fromId with
      | none => exact ⟨g, by simp only [step, addEdge, hfrom, Option.map_some], h⟩
      | some fromNode =>
          cases hto : g.nodes.lookup toId with
          | none => exact ⟨g, by simp only [step, addEdge, hfrom, hto, Option.map_some], h⟩
          | some toNode =>
              rcases addEdge_of_lookup hfrom hto with ⟨hadd, -⟩ | ⟨hadd, hne, hback⟩
              · exact ⟨g, by rw [step, hadd, Option.map_some], h⟩
              · refine ⟨_, by rw [step, hadd, Option.map_some], ?_⟩
                refine (h.insert hback).mono fun v w hedge => ?_
                exact (edge_recordEdge hfrom hto hne v w).mp hedge

/-- **Edges are inserted exactly when they close no cycle**, in every graph that a sequence
of edits reaches.  Every sequence reaches one: an edit always returns.  An insertion adds the
edge that was asked for and no other, and a refusal changes nothing. -/
theorem addEdge_exact (edits : List (Edit F)) :
    ∃ g, Transition.run step (new : StrategyDag F) edits = some g ∧ Acyclic g.Edge ∧
      ∀ a ∈ g.nodes, ∀ b ∈ g.nodes, ∃ g' added, g.addEdge a b = some (added, g') ∧
        (added = true ↔ a ≠ b ∧ ¬ g.Reachable b a) ∧
        (added = true → ∀ v w, g'.Edge v w ↔ g.Edge v w ∨ (v = a ∧ w = b)) ∧
        (added = false → g' = g) := by
  obtain ⟨g, hreached, hacyclic⟩ := Transition.exists_run_of_invariant
    (fun (g : StrategyDag F) e h => acyclic_step h e) edits new acyclic_new
  refine ⟨g, hreached, hacyclic, fun a ha b hb => ?_⟩
  obtain ⟨fromNode, hfrom⟩ := Option.isSome_iff_exists.mp (AList.lookup_isSome.mpr ha)
  obtain ⟨toNode, hto⟩ := Option.isSome_iff_exists.mp (AList.lookup_isSome.mpr hb)
  rcases addEdge_of_lookup hfrom hto with ⟨hadd, hcycle⟩ | ⟨hadd, hne, hback⟩
  · exact ⟨g, false, hadd, iff_of_false (by decide) fun h => hcycle.elim h.1 h.2,
      nofun, fun _ => rfl⟩
  · exact ⟨_, true, hadd, iff_of_true rfl ⟨hne, hback⟩, fun _ => edge_recordEdge hfrom hto hne,
      nofun⟩

end StrategyDag

end StopTrading.Strategy
