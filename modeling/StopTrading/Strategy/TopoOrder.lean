import StopTrading.Library.TopologicalOrder
import StopTrading.Strategy.Dag

/-!
# The evaluation order of the strategy graph

`compute_topo_order` is Kahn's algorithm on the stored `in_degree` of every node.  Its first
queue has the nodes of degree zero in the order in which the hash map is iterated, which may
be any.  An output that is not in the map makes it panic, and when it did not place every node
it answers with no order at all.

`remove_node` leaves the neighbours of a node as they are.  After the removal of the end of an
edge the start of it has an output that is not in the map; after the removal of the start the
end waits for an edge that is never taken away.  As long as only nodes without edges are
removed, inputs, outputs and degrees agree (`WellLinked`) and the order is right
(`allStates_evaluable`).

### What is load-bearing

The algorithm decrements a stored degree for every output that it follows, and expects to come to
zero after the last input.  So the degree has to be the number of inputs, and the inputs have to
be the outputs seen from the other end, each as often: this is `WellLinked`, and
`WellLinked.remaining_eq` turns it into what `Library.GraphSearch` asks for.

Every edit is judged by what it does to these counts.  `KeepsLinks` is the condition that comes
out: only a removal of a node with edges, or an id that comes back, breaks them.

### Design decisions

* Degrees are words, and taking one off zero wraps, as it does in an unchecked build.  In a
  well-linked graph this never happens.
* The order of iteration is an argument, so that a result for every order can be stated.
-/

namespace StopTrading.Strategy.StrategyDag

open GraphSearch TopologicalOrder Transition

universe u

variable {F : Type u}

/-- `*deg -= 1` on a 64-bit word. -/
def decrement (deg : Nat) : Nat := if deg = 0 then 2 ^ 64 - 1 else deg - 1

/-- The stored degree of a node. -/
def storedDegree (g : StrategyDag F) (v : Nat) : Option Nat := (g.nodes.lookup v).map (·.inDegree)

/-- `compute_topo_order`, given the order in which the map is iterated.  A node is queued when
its degree becomes zero, so a round for every node is enough. -/
def computeTopoOrder (g : StrategyDag F) (iteration : List Nat) : Outcome Nat :=
  let queue := iteration.filter fun v => g.storedDegree v == some 0
  match kahn decrement g.outputsOf g.nodes.keys.length g.storedDegree queue [] with
  | .order result =>
      if result.length ≠ g.nodes.keys.length then .order [] else .order result
  | .missing w => .missing w
  | .outOfRounds => .outOfRounds

/-- **The graph has an evaluation order**, and it is computed for every order of iteration. -/
def Evaluable (g : StrategyDag F) : Prop :=
  ∀ iteration : List Nat, iteration.Perm g.nodes.keys →
    ∃ order, g.computeTopoOrder iteration = .order order ∧
      IsTopologicalOrder g.Edge g.nodes.keys order

/-- Whether an order is topological can be computed. -/
instance (g : StrategyDag F) (order : List Nat) :
    Decidable (IsTopologicalOrder g.Edge g.nodes.keys order) :=
  decidable_of_iff
    (order.Perm g.nodes.keys ∧ ∀ v ∈ g.nodes.keys, ∀ w ∈ g.outputsOf v, w ∈ g.nodes →
      order.idxOf v < order.idxOf w)
    ⟨fun h => ⟨h.1, fun v w hedge => h.2 v (AList.mem_keys.mp hedge.1) w hedge.2.2 hedge.2.1⟩,
      fun h => ⟨h.perm, fun v hv w hout hw => h.forward v w ⟨AList.mem_keys.mpr hv, hw, hout⟩⟩⟩

/-! ## Inputs, outputs and degrees -/

/-- The inputs of a node, none if there is no such node. -/
def inputsOf (g : StrategyDag F) (v : Nat) : List Nat :=
  match g.nodes.lookup v with
  | some node => node.inputs
  | none => []

/-- **The ends of every edge agree**: a node has another as its input as often as it is an
output of that one, and its degree is the number of its inputs. -/
structure WellLinked (g : StrategyDag F) : Prop where
  /-- What one end has as an output, the other has as an input. -/
  mirror : ∀ v w, (g.inputsOf w).count v = (g.outputsOf v).count w
  /-- The degree that is stored counts the inputs. -/
  degree : ∀ v ∈ g.nodes, g.storedDegree v = some (g.inputsOf v).length
  acyclic : Acyclic g.Edge

/-- The inputs of a node that is not there, -/
theorem inputsOf_of_not_mem {g : StrategyDag F} {v : Nat} (h : v ∉ g.nodes) :
    g.inputsOf v = [] := by
  simp only [inputsOf, AList.lookup_eq_none.mpr h]

/-- and so only existing nodes have any. -/
theorem mem_nodes_of_mem_inputsOf {g : StrategyDag F} {v w : Nat} (h : w ∈ g.inputsOf v) :
    v ∈ g.nodes := by
  by_contra hv
  rw [inputsOf_of_not_mem hv] at h
  exact List.not_mem_nil h

/-- An output at one end is an input at the other. -/
theorem WellLinked.mem_outputsOf_iff {g : StrategyDag F} (h : WellLinked g) {v w : Nat} :
    w ∈ g.outputsOf v ↔ v ∈ g.inputsOf w := by
  rw [← List.count_pos_iff, ← List.count_pos_iff, h.mirror]

/-- No name leads out of the graph. -/
theorem WellLinked.output_mem {g : StrategyDag F} (h : WellLinked g) {v w : Nat}
    (hw : w ∈ g.outputsOf v) : w ∈ g.nodes :=
  mem_nodes_of_mem_inputsOf (h.mem_outputsOf_iff.mp hw)

/-- The inputs of a node are the edges that end there. -/
theorem WellLinked.remaining_eq {g : StrategyDag F} (h : WellLinked g) (w : Nat) :
    remaining g.outputsOf g.nodes.keys [] w = (g.inputsOf w).length := by
  have hinputs : ∀ v ∈ (g.inputsOf w : Multiset Nat), v ∈ g.nodes.keys.toFinset := by
    intro v hv
    have hout := h.mem_outputsOf_iff.mpr (Multiset.mem_coe.mp hv)
    exact List.mem_toFinset.mpr (AList.mem_keys.mp (mem_nodes_of_mem_outputsOf hout))
  calc remaining g.outputsOf g.nodes.keys [] w
      = ∑ v ∈ g.nodes.keys.toFinset, (g.outputsOf v).count w := by
        rw [remaining, List.toFinset_nil, Finset.sdiff_empty]
    _ = ∑ v ∈ g.nodes.keys.toFinset, (g.inputsOf w : Multiset Nat).count v :=
        Finset.sum_congr rfl fun v _ => by rw [← h.mirror v w, Multiset.coe_count]
    _ = (g.inputsOf w).length := by
        rw [Multiset.sum_count_eq_card hinputs, Multiset.coe_card]

/-- **In a well-linked graph the order is right.** -/
theorem WellLinked.evaluable {g : StrategyDag F} (h : WellLinked g) : Evaluable g := by
  intro iteration hiteration
  have hcounts : Counts g.storedDegree g.nodes.keys (remaining g.outputsOf g.nodes.keys []) := by
    intro v hv
    rw [h.remaining_eq v]
    exact h.degree v (AList.mem_keys.mpr hv)
  have hfree : ∀ v, v ∈ iteration.filter (fun v => g.storedDegree v == some 0) ↔
      v ∈ g.nodes.keys ∧ remaining g.outputsOf g.nodes.keys [] v = 0 := by
    intro v
    rw [List.mem_filter, hiteration.mem_iff]
    refine and_congr_right fun hv => ?_
    rw [hcounts v hv, beq_iff_eq, Option.some.injEq]
  have hdecrement : ∀ n, decrement (n + 1) = n := fun _ => rfl
  obtain ⟨order, hkahn, horder⟩ := kahn_isTopologicalOrder hdecrement
    g.nodes.keys_nodup (fun v w hw => AList.mem_keys.mp (h.output_mem hw)) h.acyclic hcounts
    ((hiteration.nodup_iff.mpr g.nodes.keys_nodup).filter _) hfree le_rfl
  refine ⟨order, ?_, horder⟩
  simp only [computeTopoOrder, hkahn, ne_eq, horder.perm.length_eq, not_true_eq_false, if_false]

/-! ## What the edits do -/

/-- A new graph has no ends to disagree. -/
theorem wellLinked_new : WellLinked (new : StrategyDag F) where
  mirror _ _ := rfl
  degree v hv := absurd hv (AList.notMem_empty v)
  acyclic := acyclic_new

/-- An edge adds one input to its end, -/
theorem inputsOf_recordEdge {g : StrategyDag F} {fromId toId : Nat} {fromNode toNode : DagNode F}
    (hfrom : g.nodes.lookup fromId = some fromNode) (hto : g.nodes.lookup toId = some toNode)
    (w : Nat) :
    (g.recordEdge fromId toId fromNode toNode).inputsOf w =
      if w = toId then g.inputsOf w ++ [fromId] else g.inputsOf w := by
  by_cases hw : w = toId
  · subst hw
    simp [inputsOf, recordEdge, hto]
  · by_cases hw' : w = fromId
    · subst hw'
      simp [inputsOf, recordEdge, AList.lookup_insert_ne hw, hfrom, hw]
    · simp [inputsOf, recordEdge, AList.lookup_insert_ne hw, AList.lookup_insert_ne hw', hw]

/-- and one to its degree. -/
theorem storedDegree_recordEdge {g : StrategyDag F} {fromId toId : Nat}
    {fromNode toNode : DagNode F} (hfrom : g.nodes.lookup fromId = some fromNode)
    (hto : g.nodes.lookup toId = some toNode) (w : Nat) :
    (g.recordEdge fromId toId fromNode toNode).storedDegree w =
      if w = toId then (g.storedDegree w).map (· + 1) else g.storedDegree w := by
  by_cases hw : w = toId
  · subst hw
    simp [storedDegree, recordEdge, hto]
  · by_cases hw' : w = fromId
    · subst hw'
      simp [storedDegree, recordEdge, AList.lookup_insert_ne hw, hfrom, hw]
    · simp [storedDegree, recordEdge, AList.lookup_insert_ne hw, AList.lookup_insert_ne hw', hw]

/-- An edge that closes no cycle keeps the ends in agreement. -/
theorem WellLinked.recordEdge {g : StrategyDag F} (h : WellLinked g) {fromId toId : Nat}
    {fromNode toNode : DagNode F} (hfrom : g.nodes.lookup fromId = some fromNode)
    (hto : g.nodes.lookup toId = some toNode) (different : fromId ≠ toId)
    (hacyclic : Acyclic (g.recordEdge fromId toId fromNode toNode).Edge) :
    WellLinked (g.recordEdge fromId toId fromNode toNode) where
  mirror v w := by
    have hmirror := h.mirror v w
    rw [inputsOf_recordEdge hfrom hto, outputsOf_recordEdge hfrom hto different]
    split_ifs with hw hv hv
    -- only the pair of the new edge gets one more, on both sides
    · subst hw hv
      rw [List.count_append, List.count_append, hmirror]
      simp
    · rw [List.count_append, hmirror, List.count_singleton, if_neg (by simpa using Ne.symm hv),
        Nat.add_zero]
    · rw [List.count_append, hmirror, List.count_singleton, if_neg (by simpa using Ne.symm hw),
        Nat.add_zero]
    · exact hmirror
  degree v hv := by
    have hdegree := h.degree v ((mem_recordEdge hfrom hto v).mp hv)
    rw [storedDegree_recordEdge hfrom hto, inputsOf_recordEdge hfrom hto, hdegree]
    split_ifs
    · rw [Option.map_some, List.length_append, List.length_singleton]
    · rfl
  acyclic := hacyclic

/-- A graph in which the nodes are linked as before. -/
theorem WellLinked.congr {g g' : StrategyDag F} (h : WellLinked g)
    (outputs : ∀ v, g'.outputsOf v = g.outputsOf v) (inputs : ∀ v, g'.inputsOf v = g.inputsOf v)
    (degree : ∀ v ∈ g'.nodes, g'.storedDegree v = some (g'.inputsOf v).length)
    (hacyclic : Acyclic g'.Edge) : WellLinked g' where
  mirror v w := by rw [outputs, inputs, h.mirror]
  degree := degree
  acyclic := hacyclic

/-- A node with a new id has no edges. -/
theorem WellLinked.addNode {g : StrategyDag F} (h : WellLinked g) (name : String)
    (nodeType : NodeType F)
    (fresh : g.nodes.keys.length < maxDagNodes → g.nextNodeId ∉ g.nodes) :
    WellLinked (g.addNode name nodeType).2 := by
  by_cases room : g.nodes.keys.length ≥ maxDagNodes
  · simpa only [StrategyDag.addNode, if_pos room] using h
  · have hfresh := fresh (Nat.lt_of_not_le room)
    have hinputs : ∀ v, (g.addNode name nodeType).2.inputsOf v = g.inputsOf v := by
      intro v
      by_cases hv : v = g.nextNodeId
      · subst hv
        rw [inputsOf_of_not_mem hfresh]
        simp [StrategyDag.addNode, room, inputsOf, DagNode.new]
      · simp [StrategyDag.addNode, room, inputsOf, AList.lookup_insert_ne hv]
    refine h.congr (fun v => ?_) hinputs (fun v hv => ?_) (acyclic_addNode h.acyclic name nodeType)
    · rw [outputsOf_addNode room]
      split_ifs with hv
      · rw [hv, outputsOf_of_not_mem hfresh]
      · rfl
    · rw [hinputs v]
      rcases (mem_addNode room name nodeType v).mp hv with rfl | hold
      · rw [inputsOf_of_not_mem hfresh]
        simp [StrategyDag.addNode, room, storedDegree, DagNode.new]
      · have hne : v ≠ g.nextNodeId := fun heq => hfresh (heq ▸ hold)
        rw [← h.degree v hold]
        simp [StrategyDag.addNode, room, storedDegree, AList.lookup_insert_ne hne]

/-- A node without edges leaves none behind. -/
theorem WellLinked.removeNode {g : StrategyDag F} (h : WellLinked g) {id : Nat}
    (noInputs : g.inputsOf id = []) (noOutputs : g.outputsOf id = []) :
    WellLinked (g.removeNode id).2 := by
  have hacyclic : Acyclic (g.removeNode id).2.Edge := h.acyclic.mono fun _ _ => edge_removeNode
  revert hacyclic
  unfold StrategyDag.removeNode
  split
  · intro hacyclic
    have hinputs : ∀ v, inputsOf { g with nodes := g.nodes.erase id, dirty := true } v =
        g.inputsOf v := by
      intro v
      by_cases hv : v = id
      · subst hv
        rw [noInputs]
        simp [inputsOf]
      · simp [inputsOf, AList.lookup_erase_ne hv]
    -- without its own lists the node was named nowhere, so nothing dangles
    refine h.congr (fun v => ?_) hinputs (fun v hv => ?_) hacyclic
    · by_cases hv : v = id
      · subst hv
        rw [noOutputs]
        simp [outputsOf]
      · simp [outputsOf, AList.lookup_erase_ne hv]
    · obtain ⟨hne, hold⟩ := AList.mem_erase.mp hv
      rw [hinputs v, ← h.degree v hold]
      simp [storedDegree, AList.lookup_erase_ne hne]
  · exact fun _ => h

/-- **An edit keeps the links** unless it removes a node with edges, or adds one under an id
that is in use, which takes a wrap of the ids. -/
def KeepsLinks (g : StrategyDag F) : Edit F → StrategyDag F → Prop
  | .addNode _ _, _ => g.nodes.keys.length < maxDagNodes → g.nextNodeId ∉ g.nodes
  | .addEdge _ _, _ => True
  | .removeNode id, _ => g.inputsOf id = [] ∧ g.outputsOf id = []

instance (g : StrategyDag F) : ∀ (e : Edit F) (g' : StrategyDag F), Decidable (KeepsLinks g e g')
  | .addNode _ _, _ => inferInstanceAs (Decidable (_ → _))
  | .addEdge _ _, _ => inferInstanceAs (Decidable True)
  | .removeNode id, _ =>
      inferInstanceAs (Decidable (g.inputsOf id = [] ∧ g.outputsOf id = []))

/-- **An edit that keeps the links** leaves a well-linked graph. -/
theorem WellLinked.step {g g' : StrategyDag F} (h : WellLinked g) {e : Edit F}
    (hstep : g.step e = some g') (keeps : KeepsLinks g e g') : WellLinked g' := by
  cases e with
  | addNode name nodeType =>
      obtain rfl : _ = g' := Option.some.inj hstep
      exact h.addNode name nodeType keeps
  | removeNode id =>
      obtain rfl : _ = g' := Option.some.inj hstep
      exact h.removeNode keeps.1 keeps.2
  | addEdge fromId toId =>
      have hacyclic : Acyclic g'.Edge := by
        obtain ⟨g'', hstep', hacyclic⟩ := acyclic_step h.acyclic (.addEdge fromId toId)
        obtain rfl := Option.some.inj (hstep'.symm.trans hstep)
        exact hacyclic
      cases hfrom : g.nodes.lookup fromId with
      | none =>
          simp only [StrategyDag.step, addEdge, hfrom, Option.map_some, Option.some.injEq] at hstep
          exact hstep ▸ h
      | some fromNode =>
          cases hto : g.nodes.lookup toId with
          | none =>
              simp only [StrategyDag.step, addEdge, hfrom, hto, Option.map_some,
                Option.some.injEq] at hstep
              exact hstep ▸ h
          | some toNode =>
              rcases addEdge_of_lookup hfrom hto with ⟨hadd, -⟩ | ⟨hadd, hne, -⟩
              · rw [StrategyDag.step, hadd] at hstep
                obtain rfl : g = g' := Option.some.inj hstep
                exact h
              · rw [StrategyDag.step, hadd] at hstep
                obtain rfl : _ = g' := Option.some.inj hstep
                exact h.recordEdge hfrom hto hne hacyclic

/-- **The graph can be evaluated in every state** of a run whose edits keep the links. -/
theorem allStates_evaluable (edits : List (Edit F))
    (keeps : AllSteps step KeepsLinks (new : StrategyDag F) edits) :
    AllStates step Evaluable (new : StrategyDag F) edits :=
  AllStates.of_invariant (fun _ (h : WellLinked _) => h.evaluable)
    (fun _ _ _ h hstep hkeeps => h.step hstep hkeeps) wellLinked_new keeps

/-- Two nodes, an edge between them, and a third node that comes and goes. -/
theorem allStates_evaluable_threeNodes :
    AllStates step Evaluable (new : StrategyDag Rat)
      [.addNode "price" .input, .addNode "signal" .output, .addEdge 1 2, .addNode "spare" .input,
        .removeNode 3] :=
  allStates_evaluable _ (by decide +kernel)

/-- Two nodes and an edge between them, and then one of the nodes is removed. -/
def editsRemoving (id : Nat) : List (Edit Rat) :=
  [.addNode "price" .input, .addNode "signal" .output, .addEdge 1 2, .removeNode id]

/-- With the start of the edge gone the end is never reached and the order is empty. -/
theorem not_forall_evaluable :
    ¬ ∀ edits : List (Edit Rat), AllStates step Evaluable new edits := by
  intro h
  have hrun : ∃ g, run step new (editsRemoving 1) = some g ∧ [2].Perm g.nodes.keys ∧
      g.computeTopoOrder [2] = .order [] :=
    ⟨_, rfl, by decide +kernel, by decide +kernel⟩
  obtain ⟨g, hrun, hkeys, hempty⟩ := hrun
  obtain ⟨order, horder, htopological⟩ := (h (editsRemoving 1)).of_run hrun [2] hkeys
  obtain rfl : [] = order := Outcome.order.inj (hempty.symm.trans horder)
  exact absurd (htopological.perm.trans hkeys.symm) (by decide)

/-- With the end gone the evaluation panics. -/
example : (run step new (editsRemoving 2)).map (·.computeTopoOrder [1]) = some (.missing 2) := by
  decide +kernel

end StopTrading.Strategy.StrategyDag
