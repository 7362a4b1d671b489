import Mathlib.Data.Rat.Sqrt
import StopTrading.Library.FloatOps
import StopTrading.Strategy.TopoOrder

/-!
# Evaluation of the strategy graph

`execute` starts from the supplied inputs and visits the nodes in the stored order.  A node
whose inputs have no result yet is skipped, unless it is an input node; the others compute
from the results of their inputs, and a result that is a success is stored, over what was
there.

In a graph that was only built up, the inputs of a node are the nodes with an edge to it.  So
what a node reads is final when its turn comes, and all topological orders give the same
results (`executeOrder_eq`).  What `execute` returns does not depend on the order in which
the hash map is iterated (`execute_iteration`).

The floating-point operations are uninterpreted.

### What is load-bearing

The loop stores results while it goes on reading them, so that what a node finds depends on what
was visited before.  `executeNode_congr` says on what exactly: its own old result and those of
the nodes with an edge to it.  In a topological order all of these have had their turn, and their
results are final.  `Library.TopologicalOrder` turns this into the equality of two runs of the
loop.

Inputs that are listed have to be edges for that, and this is `WellLinked`, which a graph that
was only built up satisfies (`wellLinked_of_builds`).

### Design decisions

`NodeOps` are any functions.  Nothing is assumed of floating-point addition, not even that its
order could be changed; the orders that are compared are orders of nodes, and within a node the
inputs are read as they are listed.
-/

namespace StopTrading.Strategy

open Transition TopologicalOrder

universe u

variable {F : Type u}

/-- The floating-point operations of the nodes; `sumStart` is the sum of nothing. -/
structure NodeOps (F : Type u) extends FloatOps F where
  abs : F → F
  sqrt : F → F
  ln : F → F
  exp : F → F
  max : F → F → F
  min : F → F → F
  infinity : F
  negInfinity : F
  sumStart : F

/-- `as_f64`. -/
def NodeData.asF64 : NodeData F → Option F
  | .f64 v => some v
  | _ => none

/-- `ComputeResult`. -/
inductive ComputeResult (F : Type u) where
  | success (data : NodeData F)
  | pending
  | error (message : String)
  deriving Repr, DecidableEq

/-- `inputs.get(i)?.and_then(|i| i.as_f64())?`: the number at an input, which ends the
computation if there is none. -/
def inputF64 (inputs : List (Option (NodeData F))) (i : Nat) : Option F :=
  inputs[i]?.bind fun data => data.bind NodeData.asF64

/-- The numbers among the inputs. -/
def inputNumbers (inputs : List (Option (NodeData F))) : List F :=
  inputs.filterMap fun data => data.bind NodeData.asF64

/-- A number as a result. -/
def successF64 (v : F) : ComputeResult F := .success (.f64 v)

/-- `compute_math`. -/
def computeMath (ops : NodeOps F) (op : MathOperation) (inputs : List (Option (NodeData F))) :
    Option (ComputeResult F) := do
  match op with
  | .add =>
      let a ← inputF64 inputs 0
      let b ← inputF64 inputs 1
      some (successF64 (ops.add a b))
  | .subtract =>
      let a ← inputF64 inputs 0
      let b ← inputF64 inputs 1
      some (successF64 (ops.sub a b))
  | .multiply =>
      let a ← inputF64 inputs 0
      let b ← inputF64 inputs 1
      some (successF64 (ops.mul a b))
  | .divide =>
      let a ← inputF64 inputs 0
      let b ← inputF64 inputs 1
      if ops.lt (ops.abs b) (ops.lit (1 / 10000000000)) = true then
        some (.error "Division by zero")
      else some (successF64 (ops.div a b))
  | .sqrt =>
      let a ← inputF64 inputs 0
      some (successF64 (ops.sqrt a))
  | .log =>
      let a ← inputF64 inputs 0
      some (successF64 (ops.ln a))
  | .exp =>
      let a ← inputF64 inputs 0
      some (successF64 (ops.exp a))
  | .abs =>
      let a ← inputF64 inputs 0
      some (successF64 (ops.abs a))
  | .negate =>
      let a ← inputF64 inputs 0
      some (successF64 (ops.neg a))

/-- `compute_statistics`, a placeholder in the source. -/
def computeStatistics (ops : NodeOps F) (_ : StatOperation) (_ : List (Option (NodeData F))) :
    Option (ComputeResult F) :=
  some (successF64 (ops.lit 0))

/-- `compute_signal`. -/
def computeSignal (ops : NodeOps F) (sig : SignalType F) (inputs : List (Option (NodeData F))) :
    Option (ComputeResult F) := do
  match sig with
  | .thresholdCross threshold direction =>
      let value ← inputF64 inputs 0
      let triggered :=
        match direction with
        | .above => ops.lt threshold value
        | .below => ops.lt value threshold
      some (.success (.bool triggered))
  | .rsiOverbought level =>
      let rsi ← inputF64 inputs 0
      some (.success (.bool (ops.lt level rsi)))
  | .rsiOversold level =>
      let rsi ← inputF64 inputs 0
      some (.success (.bool (ops.lt rsi level)))
  | .movingAverageCross => some (.success (.bool false))

/-- The sum of numbers. -/
def sumF64 (ops : NodeOps F) (values : List F) : F := values.foldl ops.add ops.sumStart

/-- `compute_aggregate`. -/
def computeAggregate (ops : NodeOps F) (agg : AggregateType)
    (inputs : List (Option (NodeData F))) : Option (ComputeResult F) :=
  let values := inputNumbers inputs
  match agg with
  | .sum => some (successF64 (sumF64 ops values))
  | .max => some (successF64 (values.foldl ops.max ops.negInfinity))
  | .min => some (successF64 (values.foldl ops.min ops.infinity))
  | .average =>
      if values.isEmpty = true then some (.error "No values for average")
      else some (successF64 (ops.div (sumF64 ops values) (ops.ofU64 values.length)))
  | .concat => none

/-- `compute_node`. -/
def computeNode (ops : NodeOps F) (node : DagNode F) (inputs : List (Option (NodeData F))) :
    Option (ComputeResult F) :=
  match node.nodeType with
  | .input => none
  | .math op => computeMath ops op inputs
  | .statistics op => computeStatistics ops op inputs
  | .signal sig => computeSignal ops sig inputs
  | .aggregate agg => computeAggregate ops agg inputs
  | .output => inputs.head?.bind fun data => data.map .success

/-- A map from the ids of nodes to what was computed for them. -/
abbrev Results (F : Type u) := Nat → Option (NodeData F)

/-- `ExecutionContext`, as far as the evaluation reads it. -/
structure ExecutionContext (F : Type u) where
  inputs : Results F
  results : Results F

/-- The results before the first node: the inputs are drained into them. -/
def ExecutionContext.drained (ctx : ExecutionContext F) : Results F :=
  fun id => (ctx.inputs id).or (ctx.results id)

/-- The node is an input node. -/
def DagNode.isInput (node : DagNode F) : Bool :=
  match node.nodeType with
  | .input => true
  | _ => false

/-- What the results have for a node after its turn. -/
def DagNode.result (ops : NodeOps F) (node : DagNode F) (old : Option (NodeData F))
    (inputs : List (Option (NodeData F))) : Option (NodeData F) :=
  if inputs.all (·.isSome) = false ∧ node.isInput = false then old
  else
    match computeNode ops node inputs with
    | some (.success data) => some data
    | some (.error _) | some .pending | none => old

namespace StrategyDag

/-- The turn of a node; an id that is not in the map is passed over. -/
def executeNode (ops : NodeOps F) (g : StrategyDag F) (id : Nat) (results : Results F) :
    Option (NodeData F) :=
  match g.nodes.lookup id with
  | some node => node.result ops (results id) (node.inputs.map results)
  | none => results id

/-- **The loop of `execute`** over the nodes in an order. -/
def executeOrder (ops : NodeOps F) (g : StrategyDag F) (ctx : ExecutionContext F)
    (order : List Nat) : Results F :=
  evaluate (g.executeNode ops) ctx.drained order

/-- `execute`: the results and the graph with its stored order, `none` when the computation
of the order panics. -/
def execute (ops : NodeOps F) (g : StrategyDag F) (iteration : List Nat)
    (ctx : ExecutionContext F) : Option (Results F × StrategyDag F) :=
  if g.dirty = true then
    match g.computeTopoOrder iteration with
    | .order order =>
        some (g.executeOrder ops ctx order, { g with topoOrder := order, dirty := false })
    | .missing _ | .outOfRounds => none
  else some (g.executeOrder ops ctx g.topoOrder, g)

/-! ## Graphs that are only built up -/

/-- The edit is not a removal. -/
def Edit.Builds : Edit F → Prop
  | .addNode _ _ | .addEdge _ _ => True
  | .removeNode _ => False

instance : ∀ e : Edit F, Decidable e.Builds
  | .addNode _ _ | .addEdge _ _ => isTrue trivial
  | .removeNode _ => isFalse id

/-- The ids of a graph that was only built up: as many as there are nodes, from 1 on. -/
structure Numbered (g : StrategyDag F) : Prop where
  below : ∀ v ∈ g.nodes, v < g.nextNodeId
  next : g.nextNodeId = g.nodes.keys.length + 1
  /-- There are no more nodes than a graph may have. -/
  room : g.nodes.keys.length ≤ maxDagNodes

/-- A new graph numbers its nodes from one on. -/
theorem numbered_new : Numbered (new : StrategyDag F) where
  below v hv := absurd hv (AList.notMem_empty v)
  next := rfl
  room := Nat.zero_le _

/-- The next id is not in use, -/
theorem Numbered.fresh {g : StrategyDag F} (h : Numbered g) : g.nextNodeId ∉ g.nodes :=
  fun hmem => lt_irrefl _ (h.below _ hmem)

/-- and adding a node under it keeps the numbering. -/
theorem Numbered.addNode {g : StrategyDag F} (h : Numbered g) (name : String)
    (nodeType : NodeType F) : Numbered (g.addNode name nodeType).2 := by
  by_cases room : g.nodes.keys.length ≥ maxDagNodes
  · simpa only [StrategyDag.addNode, if_pos room] using h
  · have hlength : (g.addNode name nodeType).2.nodes.keys.length = g.nodes.keys.length + 1 := by
      simp only [StrategyDag.addNode, if_neg room]
      exact FiniteMap.length_insert_new h.fresh _
    have hnext : (g.addNode name nodeType).2.nextNodeId = g.nextNodeId + 1 := by
      simp only [StrategyDag.addNode, if_neg room]
      have hnext := h.next
      have hroom := h.room
      rw [maxDagNodes] at hroom
      exact Nat.mod_eq_of_lt (by omega)
    refine ⟨fun v hv => ?_, by rw [hnext, hlength, h.next], by omega⟩
    rw [hnext]
    rcases (mem_addNode room name nodeType v).mp hv with rfl | hold
    · exact Nat.lt_succ_self _
    · exact (h.below v hold).trans (Nat.lt_succ_self _)

/-- **An edit that is not a removal** keeps it. -/
theorem Numbered.step {g g' : StrategyDag F} (h : Numbered g) {e : Edit F}
    (hstep : g.step e = some g') (builds : e.Builds) : Numbered g' := by
  cases e with
  | addNode name nodeType =>
      obtain rfl : _ = g' := Option.some.inj hstep
      exact h.addNode name nodeType
  | removeNode id => exact builds.elim
  | addEdge fromId toId =>
      simp only [StrategyDag.step, addEdge] at hstep
      split at hstep
      · rename_i fromNode toNode hfrom hto
        obtain ⟨⟨added, g''⟩, hadd, rfl⟩ := Option.map_eq_some_iff.mp hstep
        obtain ⟨cycle, -, hcycle⟩ := Option.map_eq_some_iff.mp hadd
        split_ifs at hcycle
        · obtain rfl : g = g'' := congrArg Prod.snd hcycle
          exact h
        · -- recording an edge replaces two nodes under their own ids
          obtain rfl : _ = g'' := congrArg Prod.snd hcycle
          have hkeys : (g.recordEdge fromId toId fromNode toNode).nodes.keys.length =
              g.nodes.keys.length := by
            rw [recordEdge, FiniteMap.length_insert_old, FiniteMap.length_insert_old]
            · exact FiniteMap.mem_of_lookup hfrom
            · exact (AList.mem_insert _).mpr (Or.inr (FiniteMap.mem_of_lookup hto))
          refine ⟨fun v hv => h.below v ((mem_recordEdge hfrom hto v).mp hv), ?_,
            hkeys.trans_le h.room⟩
          rw [hkeys]
          exact h.next
      · obtain rfl : g = g' := Option.some.inj hstep
        exact h

/-- **A graph that was only built up is well linked.** -/
theorem wellLinked_of_builds {edits : List (Edit F)} {g : StrategyDag F}
    (hrun : run step new edits = some g) (builds : ∀ e ∈ edits, e.Builds) : WellLinked g := by
  have hsteps : AllSteps step (fun _ e _ => e.Builds) (new : StrategyDag F) edits :=
    allSteps_of_forall_mem edits new builds
  suffices hkeep : ∀ (g : StrategyDag F) (e : Edit F) (g' : StrategyDag F),
      WellLinked g ∧ Numbered g → step g e = some g' → e.Builds → WellLinked g' ∧ Numbered g' from
    (run_of_invariant hkeep ⟨wellLinked_new, numbered_new⟩ hsteps hrun).1
  rintro g e g' ⟨hlinked, hnumbered⟩ hstep hbuilds
  refine ⟨hlinked.step hstep ?_, hnumbered.step hstep hbuilds⟩
  cases e with
  | addNode name nodeType => exact fun _ => hnumbered.fresh
  | addEdge fromId toId => trivial
  | removeNode id => exact hbuilds.elim

/-! ## The order does not matter -/

/-- A node reads its own old result and those of the nodes with an edge to it. -/
theorem executeNode_congr {ops : NodeOps F} {g : StrategyDag F} (h : WellLinked g) {v : Nat}
    {results results' : Results F} (own : results v = results' v)
    (inputs : ∀ u, g.Edge u v → results u = results' u) :
    g.executeNode ops v results = g.executeNode ops v results' := by
  unfold executeNode
  split
  · rename_i node hnode
    have hread : node.inputs.map results = node.inputs.map results' := by
      refine List.map_congr_left fun u hu => inputs u ?_
      -- an input of a well-linked graph is the start of an edge
      have hinput : u ∈ g.inputsOf v := by
        simp only [inputsOf, hnode]
        exact hu
      have hout := h.mem_outputsOf_iff.mpr hinput
      exact ⟨mem_nodes_of_mem_outputsOf hout, h.output_mem hout, hout⟩
    rw [own, hread]
  · exact own

/-- Two topological orders give the same results in a well-linked graph. -/
theorem WellLinked.executeOrder_congr {ops : NodeOps F} {g : StrategyDag F} (h : WellLinked g)
    (ctx : ExecutionContext F) {order order' : List Nat}
    (horder : IsTopologicalOrder g.Edge g.nodes.keys order)
    (horder' : IsTopologicalOrder g.Edge g.nodes.keys order') :
    g.executeOrder ops ctx order = g.executeOrder ops ctx order' := by
  have reads : ∀ v (results results' : Results F), results v = results' v →
      (∀ u, g.Edge u v → results u = results' u) →
      g.executeNode ops v results = g.executeNode ops v results' :=
    fun v results results' own inputs => executeNode_congr h own inputs
  exact evaluate_eq g.nodes.keys_nodup reads horder horder' ctx.drained

/-- **All topological orders give the same results**, for every graph that was only built up
and whatever is supplied. -/
theorem executeOrder_eq (ops : NodeOps F) (edits : List (Edit F)) (g : StrategyDag F)
    (hrun : run step new edits = some g) (builds : ∀ e ∈ edits, e.Builds)
    (ctx : ExecutionContext F) (order order' : List Nat)
    (h : IsTopologicalOrder g.Edge g.nodes.keys order)
    (h' : IsTopologicalOrder g.Edge g.nodes.keys order') :
    g.executeOrder ops ctx order = g.executeOrder ops ctx order' :=
  (wellLinked_of_builds hrun builds).executeOrder_congr ctx h h'

/-- Exact operations, as far as there are any on rationals; the product below needs no
others. -/
def rationalOps : NodeOps Rat :=
  { FloatOps.exact with
    abs := fun x => |x|
    sqrt := Rat.sqrt
    ln := fun x => x
    exp := fun x => x
    max := fun x y => Max.max x y
    min := fun x y => Min.min x y
    infinity := 0
    negInfinity := 0
    sumStart := 0 }

/-- A node for the product of two inputs. -/
def productEdits : List (Edit Rat) :=
  [.addNode "price" .input, .addNode "size" .input, .addNode "value" (.math .multiply),
    .addEdge 1 3, .addEdge 2 3]

/-- The inputs are 2 and 3. -/
def productInputs : ExecutionContext Rat where
  inputs id := if id = 1 then some (.f64 2) else if id = 2 then some (.f64 3) else none
  results _ := none

/-- The product of two inputs, which may come in either order. -/
theorem executeOrder_eq_product :
    ∃ g, run step new productEdits = some g ∧
      g.executeOrder rationalOps productInputs [1, 2, 3] =
        g.executeOrder rationalOps productInputs [2, 1, 3] :=
  ⟨_, rfl, executeOrder_eq rationalOps productEdits _ rfl (by decide) productInputs [1, 2, 3]
    [2, 1, 3] (by decide +kernel) (by decide +kernel)⟩

/-- The results do not depend on the order in which the map is iterated. -/
theorem execute_iteration (ops : NodeOps F) {g : StrategyDag F} (h : WellLinked g)
    (ctx : ExecutionContext F) {iteration iteration' : List Nat}
    (hperm : iteration.Perm g.nodes.keys) (hperm' : iteration'.Perm g.nodes.keys) :
    (g.execute ops iteration ctx).map (·.1) = (g.execute ops iteration' ctx).map (·.1) := by
  obtain ⟨order, horder, htopological⟩ := h.evaluable iteration hperm
  obtain ⟨order', horder', htopological'⟩ := h.evaluable iteration' hperm'
  unfold execute
  split
  · simp only [horder, horder', Option.map_some, Option.some.injEq]
    exact h.executeOrder_congr ctx htopological htopological'
  · rfl

end StrategyDag

end StopTrading.Strategy
