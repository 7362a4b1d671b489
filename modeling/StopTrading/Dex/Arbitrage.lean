import StopTrading.Dex.Graph
import StopTrading.Library.BellmanFord

/-!
# Negative cycles

`detect_arbitrage` relaxes the edges of the pools from a start token, in whatever order the map of
the edges is iterated, and looks for one that can still be relaxed by more than `1e-10`.

* `relaxEdges_spec` — behind the passes the distances are those of walks, and below all walks that
  visit no node twice.
* `detectArbitrage_spec` — it never leaves its array; what it reports is a negative cycle that can
  be reached, and a closed walk that can be reached and loses more than `1e-10` on every edge is
  reported.

### Design decisions

Weights are minus the logarithms of the prices, over an ordered field with `ln` as a parameter of
which nothing is assumed.  The distances are `WithTop`, where the source has `f64` with infinity.
The map of the edges is iterated in an order that the source does not fix, and that may differ
from one pass to the next; `order` gives it, and `Iterates` is all that is known of it.

### What is load-bearing

The source's loop is not the textbook's: it relaxes in the order of a hash map, stops early when
a pass has changed nothing, and tests with a tolerance.  So the library's Bellman–Ford is about
*sets* of relaxed edges, and what a pass contributes is `Within`: after `k` passes the distances
are below all walks of up to `k` edges, whatever the order.  An early stop is a pass that would
have changed nothing, which is a fixed point and below all walks.

Soundness of a report needs more than an edge that still shortens a distance.  After as many
passes as there are nodes it needs that distances are attained by walks (`Attained`), so that a
shorter walk has to visit a node twice; the cycle in it is negative, and it can be reached.
-/

namespace StopTrading.Dex

open BellmanFord

universe u

variable {K : Type u} [Field K] [LinearOrder K]

namespace SmartOrderRouter

/-- An edge with its weight. -/
def arc (ln : K → K) (fromNode : TokenNode) (e : PoolEdge K) : Edge TokenNode K :=
  ⟨fromNode, e.toToken, logPrice ln e⟩

/-- The weighted edges of a node. -/
def arcsOf (ln : K → K) (node : Adjacent K) : List (Edge TokenNode K) :=
  node.2.map (arc ln node.1)

/-- **The graph of the pools**: an edge for each hop. -/
def arcs (r : SmartOrderRouter K) (ln : K → K) (pools : List (LiquidityPool K)) :
    List (Edge TokenNode K) :=
  (hopsOver pools).map fun h => ⟨r.node h.source, r.node h.target, -ln h.price⟩

/-- The distance of a node in the array. -/
def distAt (dist : List (WithTop K)) (v : TokenNode) : WithTop K := dist[v.id]?.getD ⊤

/-! ## Relaxing -/

section Relax

variable {ln : K → K} {s : List (WithTop K) × Bool} {es es' : List (Edge TokenNode K)}

/-- **Edges have been relaxed**, and if no update is noted nothing has changed. -/
def Relaxes (s : List (WithTop K) × Bool) (es : List (Edge TokenNode K))
    (result : Option (List (WithTop K) × Bool)) : Prop :=
  ∃ dist updated, result = some (dist, updated) ∧ dist.length = s.1.length ∧
    distAt dist = relaxAll (distAt s.1) es ∧ (updated = false → s.2 = false ∧ dist = s.1)

/-- No edge has been relaxed, -/
theorem Relaxes.nothing (s : List (WithTop K) × Bool) : Relaxes s [] (some s) :=
  ⟨s.1, s.2, rfl, rfl, rfl, fun h => ⟨h, rfl⟩⟩

/-- or some, and then some others, -/
theorem Relaxes.bind {x : Option (List (WithTop K) × Bool)}
    {f : List (WithTop K) × Bool → Option (List (WithTop K) × Bool)} (h : Relaxes s es x)
    (hf : ∀ s', s'.1.length = s.1.length → Relaxes s' es' (f s')) :
    Relaxes s (es ++ es') (x.bind f) := by
  obtain ⟨dist, updated, rfl, hlength, hdist, hsame⟩ := h
  obtain ⟨dist', updated', hrun, hlength', hdist', hsame'⟩ := hf (dist, updated) hlength
  refine ⟨dist', updated', hrun, hlength'.trans hlength, ?_, fun h => ?_⟩
  · rw [hdist', hdist, relaxAll, relaxAll, relaxAll, List.foldl_append]
  · obtain ⟨hupdated, rfl⟩ := hsame' h
    exact hsame hupdated

/-- or those of a list, each with its own. -/
theorem Relaxes.foldlM {A : Type u} {f : List (WithTop K) × Bool → A →
      Option (List (WithTop K) × Bool)} {edges : A → List (Edge TokenNode K)} {n : Nat}
    {l : List A} (hf : ∀ a ∈ l, ∀ s, s.1.length = n → Relaxes s (edges a) (f s a))
    (hs : s.1.length = n) : Relaxes s (l.flatMap edges) (l.foldlM f s) := by
  induction l generalizing s with
  | nil => exact .nothing s
  | cons a l ih =>
      rw [List.flatMap_cons, List.foldlM_cons]
      exact (hf a List.mem_cons_self s hs).bind fun s' hs' =>
        ih (fun b hb => hf b (List.mem_cons_of_mem a hb)) (hs'.trans hs)

omit [Field K] [LinearOrder K] in
/-- A node in the array has a distance, -/
theorem getElem?_eq_distAt {dist : List (WithTop K)} {v : TokenNode} (h : v.id < dist.length) :
    dist[v.id]? = some (distAt dist v) := by
  rw [distAt, List.getElem?_eq_getElem h]
  rfl

omit [Field K] [LinearOrder K] in
/-- and another one when it is written. -/
theorem distAt_set {dist : List (WithTop K)} {v : TokenNode} (h : v.id < dist.length)
    (x : WithTop K) : distAt (dist.set v.id x) = Function.update (distAt dist) v x := by
  funext w
  unfold distAt
  by_cases hw : w = v
  · subst hw
    rw [Function.update_self, List.getElem?_set_self h]
    rfl
  · have hid : v.id ≠ w.id := fun heq => hw (congrArg TokenNode.mk heq).symm
    rw [Function.update_of_ne hw, List.getElem?_set_ne hid]

/-- **One edge** is relaxed, and never leaves the array. -/
theorem relaxEdge_spec {fromNode : TokenNode} {e : PoolEdge K} (hfrom : fromNode.id < s.1.length)
    (hto : e.toToken.id < s.1.length) :
    Relaxes s [arc ln fromNode e] (relaxEdge ln fromNode s e) := by
  unfold relaxEdge
  rw [getElem?_eq_distAt hfrom, getElem?_eq_distAt hto, Option.bind_some, Option.bind_some]
  split
  · rename_i hshorter
    refine ⟨_, true, rfl, List.length_set, ?_, fun h => absurd h.symm Bool.false_ne_true⟩
    rw [distAt_set hto]
    exact (if_pos hshorter).symm
  · rename_i hlonger
    exact ⟨s.1, s.2, rfl, rfl, (if_neg hlonger).symm, fun h => ⟨h, rfl⟩⟩

/-- The edges of a node without a distance shorten nothing. -/
theorem relaxAll_arcsOf_of_top {d : TokenNode → WithTop K} {node : Adjacent K}
    (h : d node.1 = ⊤) : relaxAll d (arcsOf ln node) = d := by
  unfold arcsOf
  induction node.2 with
  | nil => rfl
  | cons e edges ih =>
      have hnot : ¬ d node.1 + (logPrice ln e : K) < d e.toToken := by
        rw [h, WithTop.top_add]
        exact not_top_lt
      have hkeep : relax d (arc ln node.1 e) = d := if_neg hnot
      rw [List.map_cons, relaxAll, List.foldl_cons, hkeep]
      exact ih

/-- A node and its neighbours are in the array. -/
def InBounds (n : Nat) (node : Adjacent K) : Prop :=
  node.1.id < n ∧ ∀ e ∈ node.2, e.toToken.id < n

/-- The edges of one node. -/
theorem relaxNode_spec {node : Adjacent K} (hbounds : InBounds s.1.length node) :
    Relaxes s (arcsOf ln node) (relaxNode ln s node) := by
  unfold relaxNode
  rw [getElem?_eq_distAt hbounds.1, Option.bind_some]
  split
  · rename_i htop
    exact ⟨s.1, s.2, rfl, rfl, (relaxAll_arcsOf_of_top htop).symm, fun h => ⟨h, rfl⟩⟩
  · have hflat : arcsOf ln node = node.2.flatMap fun e => [arc ln node.1 e] :=
      List.map_eq_flatMap
    rw [hflat]
    refine Relaxes.foldlM (fun e he s' hs' => relaxEdge_spec ?_ ?_) rfl
    · rw [hs']
      exact hbounds.1
    · rw [hs']
      exact hbounds.2 e he

variable (ln s) in
/-- **A pass** relaxes all edges. -/
theorem pass_spec {nodes : List (Adjacent K)} (hbounds : ∀ node ∈ nodes, InBounds s.1.length node) :
    Relaxes s (nodes.flatMap (arcsOf ln)) (nodes.foldlM (relaxNode ln) s) := by
  refine Relaxes.foldlM (fun node hnode s' hs' => relaxNode_spec ?_) rfl
  rw [hs']
  exact hbounds node hnode

end Relax

/-! ## Passes -/

section Passes

variable [IsStrictOrderedRing K] {ln exp : K → K} {E : List (Edge TokenNode K)}
  {start : TokenNode} {order : Nat → List (Adjacent K)}

/-- **The nodes that are iterated are those of the graph.** -/
structure Iterates (ln : K → K) (n : Nat) (E : List (Edge TokenNode K))
    (nodes : List (Adjacent K)) : Prop where
  /-- nodes and neighbours are in the array -/
  bounds : ∀ node ∈ nodes, InBounds n node
  /-- and every edge is iterated -/
  mem_iff : ∀ e, e ∈ nodes.flatMap (arcsOf ln) ↔ e ∈ E

/-- What the distances are between two passes, with `k` passes made. -/
structure Progress (E : List (Edge TokenNode K)) (start : TokenNode) (n k : Nat)
    (dist : List (WithTop K)) : Prop where
  /-- the array has its length -/
  length_eq : dist.length = n
  /-- distances are those of walks -/
  attained : Attained E start (distAt dist)
  /-- at most zero at the start -/
  start_le : distAt dist start ≤ 0
  /-- and below all walks of so many edges -/
  within : Within E start k (distAt dist)

omit [IsStrictOrderedRing K] in
/-- At first only the start has a distance. -/
theorem Progress.initial {n : Nat} (h : start.id < n) :
    Progress E start n 0 ((List.replicate n ⊤).set start.id 0) := by
  have hlt : start.id < (List.replicate n (⊤ : WithTop K)).length := by
    rwa [List.length_replicate]
  have htop : ∀ v, distAt (List.replicate n (⊤ : WithTop K)) v = ⊤ := fun v => by
    unfold distAt
    rw [List.getElem?_replicate]
    split <;> rfl
  have hzero : distAt ((List.replicate n (⊤ : WithTop K)).set start.id 0) start ≤ 0 := by
    rw [distAt_set hlt, Function.update_self]
  refine ⟨by rw [List.length_set, List.length_replicate], fun v hv => ?_, hzero, .zero hzero⟩
  rw [distAt_set hlt] at hv ⊢
  by_cases hstart : v = start
  · subst hstart
    exact ⟨[], rfl, Function.update_self _ _ _⟩
  · rw [Function.update_of_ne hstart] at hv
    exact absurd (htop v) hv

/-- **All passes**, by induction on their number. -/
theorem relaxEdges_spec {n k : Nat} (passes : Nat) (horder : ∀ i, Iterates ln n E (order i))
    {dist : List (WithTop K)} (h : Progress E start n k dist) :
    ∃ dist', relaxEdges ln order passes dist = some dist' ∧
      Progress E start n (k + passes) dist' := by
  induction passes generalizing k dist with
  | zero => exact ⟨dist, rfl, h⟩
  | succ passes ih =>
      obtain ⟨hbounds, hmem⟩ := horder (passes + 1)
      rw [← h.length_eq] at hbounds
      obtain ⟨dist', updated, hpass, hlength, hdist, hsame⟩ :=
        pass_spec ln (dist, false) hbounds
      unfold relaxEdges
      rw [hpass, Option.bind_some]
      dsimp only
      split
      · have hsub : E ⊆ (order (passes + 1)).flatMap (arcsOf ln) := fun e he => (hmem e).mpr he
        have hsup : (order (passes + 1)).flatMap (arcsOf ln) ⊆ E := fun e he => (hmem e).mp he
        have hnext : Progress E start n (k + 1) dist' := by
          refine ⟨hlength.trans h.length_eq, ?_, ?_, ?_⟩
          · rw [hdist]
            exact h.attained.relaxAll hsup
          · rw [hdist]
            exact (relaxAll_le _ _ _).trans h.start_le
          · rw [hdist]
            exact h.within.relaxAll h.start_le hsub
        rw [← Nat.add_assoc, Nat.add_right_comm]
        exact ih hnext
      · rename_i hnot
        -- no edge shortens a distance, so no further pass would
        obtain ⟨-, rfl⟩ := hsame (Bool.not_eq_true _ ▸ hnot)
        have hstable : Stable E 0 (distAt dist') :=
          stable_of_relaxAll_eq (fun e he => (hmem e).mpr he) hdist.symm
        exact ⟨dist', rfl, h.length_eq, h.attained, h.start_le, hstable.within h.start_le _⟩

end Passes

/-! ## The check -/

section Check

variable [IsStrictOrderedRing K] {ln exp : K → K} {dist : List (WithTop K)}

/-- **The check**: there is a profit where an edge still shortens a distance, and none where no
edge shortens one by more than a tolerance. -/
def Checks (tolerance : K) (dist : List (WithTop K)) (es : List (Edge TokenNode K))
    (result : Option (Option (WithTop K))) : Prop :=
  ∃ profit, result = some profit ∧
    (profit ≠ none → ∃ e ∈ es, distAt dist e.source + e.weight < distAt dist e.target) ∧
    (profit = none → Stable es tolerance (distAt dist))

omit [IsStrictOrderedRing K] in
/-- An edge that is not reported is short enough. -/
theorem Checks.cons {e : Edge TokenNode K} {es : List (Edge TokenNode K)}
    {result : Option (Option (WithTop K))} (h : Checks (1 / 10 ^ 10) dist es result)
    (he : distAt dist e.target ≤
      distAt dist e.source + ((e.weight + 1 / 10 ^ 10 : K) : WithTop K)) :
    Checks (1 / 10 ^ 10) dist (e :: es) result := by
  obtain ⟨profit, hrun, hsome, hnone⟩ := h
  refine ⟨profit, hrun, fun h => ?_, fun h => List.forall_mem_cons.mpr ⟨he, hnone h⟩⟩
  obtain ⟨e', he', hshorter⟩ := hsome h
  exact ⟨e', List.mem_cons_of_mem e he', hshorter⟩

/-- Shorter by more than the tolerance is shorter, -/
theorem lt_of_lt_sub_tolerance {x y : WithTop K} (h : x < y - ((1 / 10 ^ 10 : K) : WithTop K)) :
    x < y := by
  cases y with
  | top => exact h
  | coe y =>
      rw [← WithTop.LinearOrderedAddCommGroup.coe_sub] at h
      refine h.trans (WithTop.coe_lt_coe.mpr ?_)
      exact sub_lt_self y (by positivity)

/-- and what is not shorter by it is no longer than the edge with the tolerance. -/
theorem le_add_tolerance {x y : WithTop K} {w : K}
    (h : ¬ x + w < y - ((1 / 10 ^ 10 : K) : WithTop K)) :
    y ≤ x + ((w + 1 / 10 ^ 10 : K) : WithTop K) := by
  rw [not_lt] at h
  cases x with
  | top => exact le_top
  | coe x =>
      cases y with
      | top => exact absurd (top_le_iff.mp h) (WithTop.coe_ne_top)
      | coe y =>
          rw [← WithTop.LinearOrderedAddCommGroup.coe_sub, ← WithTop.coe_add,
            WithTop.coe_le_coe] at h
          rw [← WithTop.coe_add, WithTop.coe_le_coe]
          linarith

variable (ln exp) in
/-- The edges of one node, -/
theorem checkEdges_spec {fromNode : TokenNode} {edges : List (PoolEdge K)}
    (hfrom : fromNode.id < dist.length) (hto : ∀ e ∈ edges, e.toToken.id < dist.length) :
    Checks (1 / 10 ^ 10) dist (edges.map (arc ln fromNode))
      (checkEdges ln exp dist fromNode edges) := by
  induction edges with
  | nil => exact ⟨none, rfl, fun h => absurd rfl h, fun _ e he => absurd he List.not_mem_nil⟩
  | cons e edges ih =>
      rw [List.forall_mem_cons] at hto
      unfold checkEdges
      rw [getElem?_eq_distAt hfrom, getElem?_eq_distAt hto.1, Option.bind_some, Option.bind_some]
      split
      · rename_i hshorter
        exact ⟨_, rfl, fun _ => ⟨_, List.mem_cons_self, lt_of_lt_sub_tolerance hshorter⟩,
          fun h => absurd h (Option.some_ne_none _)⟩
      · rename_i hlonger
        exact (ih hto.2).cons (le_add_tolerance hlonger)

variable (ln exp) in
/-- and those of all nodes. -/
theorem checkNodes_spec {nodes : List (Adjacent K)}
    (hbounds : ∀ node ∈ nodes, InBounds dist.length node) :
    Checks (1 / 10 ^ 10) dist (nodes.flatMap (arcsOf ln)) (checkNodes ln exp dist nodes) := by
  induction nodes with
  | nil => exact ⟨none, rfl, fun h => absurd rfl h, fun _ e he => absurd he List.not_mem_nil⟩
  | cons node nodes ih =>
      rw [List.forall_mem_cons] at hbounds
      obtain ⟨⟨hfrom, hto⟩, hbounds⟩ := hbounds
      obtain ⟨profit', hrest, hsome', hnone'⟩ := ih hbounds
      have hlater : profit' ≠ none → ∃ e ∈ (node :: nodes).flatMap (arcsOf ln),
          distAt dist e.source + e.weight < distAt dist e.target := fun h => by
        obtain ⟨e, he, hshorter⟩ := hsome' h
        rw [List.flatMap_cons]
        exact ⟨e, List.mem_append_right _ he, hshorter⟩
      unfold checkNodes
      rw [getElem?_eq_distAt hfrom, Option.bind_some]
      split
      · rename_i htop
        refine ⟨profit', hrest, hlater, fun h => ?_⟩
        rw [List.flatMap_cons]
        refine List.forall_mem_append.mpr ⟨fun e he => ?_, hnone' h⟩
        obtain ⟨e, -, rfl⟩ := List.mem_map.mp he
        rw [arc, htop, WithTop.top_add]
        exact le_top
      · obtain ⟨profit, hrun, hsome, hnone⟩ := checkEdges_spec ln exp hfrom hto
        rw [hrun, Option.bind_some]
        cases profit with
        | some profit =>
            obtain ⟨e, he, hshorter⟩ := hsome (Option.some_ne_none _)
            refine ⟨some profit, rfl, fun _ => ⟨e, ?_, hshorter⟩,
              fun h => absurd h (Option.some_ne_none _)⟩
            rw [List.flatMap_cons]
            exact List.mem_append_left _ he
        | none =>
            refine ⟨profit', hrest, hlater, fun h => ?_⟩
            rw [List.flatMap_cons]
            exact List.forall_mem_append.mpr ⟨hnone rfl, hnone' h⟩

end Check

/-! ## Arbitrage -/

section Graph

variable {r : SmartOrderRouter K} {pools : List (LiquidityPool K)} {ln : K → K}

/-- The map of the edges, in any order, is the graph of the pools. -/
theorem Graph.iterates (h : r.Graph pools) (ln : K → K) {nodes : List (Adjacent K)}
    (hperm : nodes.Perm r.adjacency.entries) :
    Iterates ln r.nextNodeId (r.arcs ln pools) nodes := by
  have hentry : ∀ node ∈ nodes, r.adjacency.lookup node.1 = some node.2 := fun node hnode =>
    AList.mem_lookup_iff.mpr (hperm.mem_iff.mp hnode)
  have hedges : ∀ node ∈ nodes, node.2 =
      ((hopsOver pools).filter fun h => r.node h.source = node.1).map r.edge := fun node hnode => by
    rw [← h.edges_eq, hentry node hnode]
    rfl
  refine ⟨fun node hnode => ⟨?_, fun e he => ?_⟩, fun e => ?_⟩
  · exact h.keys _ (AList.lookup_isSome.mp (by rw [hentry node hnode]; rfl))
  · rw [hedges node hnode] at he
    obtain ⟨hop, hhop, rfl⟩ := List.mem_map.mp he
    exact h.numbered.below (h.known_target (List.mem_of_mem_filter hhop))
  · rw [List.mem_flatMap, arcs, List.mem_map]
    constructor
    · rintro ⟨node, hnode, he⟩
      rw [arcsOf, hedges node hnode, List.map_map] at he
      obtain ⟨hop, hhop, rfl⟩ := List.mem_map.mp he
      obtain ⟨hmem, hsource⟩ := List.mem_filter.mp hhop
      exact ⟨hop, hmem, congrArg (Edge.mk · _ _) (of_decide_eq_true hsource)⟩
    · rintro ⟨hop, hmem, rfl⟩
      have hlist := h.edges_eq (r.node hop.source)
      have hhere : r.edge hop ∈ (r.adjacency.lookup (r.node hop.source)).getD [] := by
        rw [hlist]
        exact List.mem_map_of_mem (List.mem_filter.mpr ⟨hmem, decide_eq_true rfl⟩)
      cases hlookup : r.adjacency.lookup (r.node hop.source) with
      | none =>
          rw [hlookup] at hhere
          cases hhere
      | some edges =>
          rw [hlookup] at hhere
          exact ⟨⟨r.node hop.source, edges⟩,
            hperm.mem_iff.mpr (AList.mem_lookup_iff.mp hlookup), List.mem_map_of_mem hhere⟩

variable [IsStrictOrderedRing K]

/-- **`detect_arbitrage` completes** with the result of the check behind the passes. -/
theorem Graph.detectArbitrage_eq (h : r.Graph pools) {startToken : String} {start : TokenNode}
    (hstart : r.tokenToNode.lookup startToken = some start) (ln exp : K → K)
    {order : Nat → List (Adjacent K)} (horder : ∀ i, (order i).Perm r.adjacency.entries) :
    ∃ dist profit,
      Progress (r.arcs ln pools) start r.nextNodeId (r.nextNodeId - 1) dist ∧
      Checks (1 / 10 ^ 10) dist ((order 0).flatMap (arcsOf ln)) (some profit) ∧
      r.detectArbitrage ln exp order startToken = some (profit.isSome, profit.getD 0) := by
  have hiterates : ∀ i, Iterates ln r.nextNodeId (r.arcs ln pools) (order i) :=
    fun i => h.iterates ln (horder i)
  have hlt := h.numbered.below hstart
  obtain ⟨dist, hrelax, hprogress⟩ := relaxEdges_spec (r.nextNodeId - 1) hiterates
    (Progress.initial (E := r.arcs ln pools) hlt)
  rw [Nat.zero_add] at hprogress
  have hbounds := (hiterates 0).bounds
  rw [← hprogress.length_eq] at hbounds
  have hchecks := checkNodes_spec ln exp hbounds
  obtain ⟨profit, hcheck, -⟩ := id hchecks
  rw [hcheck] at hchecks
  refine ⟨dist, profit, hprogress, hchecks, ?_⟩
  unfold detectArbitrage
  rw [hstart]
  dsimp only
  rw [if_neg (Nat.ne_of_gt (Nat.zero_lt_of_lt hlt)), if_pos hlt, hrelax, Option.bind_some, hcheck]
  cases profit <;> rfl

/-- **`detect_arbitrage` is sound, and complete up to its tolerance**, in every graph that
`build_graph` builds and for every token in it. -/
theorem detectArbitrage_spec {r₀ r : SmartOrderRouter K} {pools : List (LiquidityPool K)}
    (hbefore : Built r₀) (hbuild : r₀.buildGraph pools = some r) {startToken : String}
    {start : TokenNode} (hstart : r.tokenToNode.lookup startToken = some start) (ln exp : K → K)
    {order : Nat → List (Adjacent K)} (horder : ∀ i, (order i).Perm r.adjacency.entries) :
    ∃ detected profit, r.detectArbitrage ln exp order startToken = some (detected, profit) ∧
      (detected = true → NegativeCycle (r.arcs ln pools) start) ∧
      ∀ p x c, IsWalk (r.arcs ln pools) start p x → IsWalk (r.arcs ln pools) x c x →
        weight c < -(c.length * (1 / 10 ^ 10)) → detected = true := by
  have hgraph := graph_of_buildGraph hbefore.numbered hbuild
  obtain ⟨dist, profit, hprogress, ⟨_, hprofit, hsome, hnone⟩, hrun⟩ :=
    hgraph.detectArbitrage_eq hstart ln exp horder
  obtain rfl := Option.some.inj hprofit
  have hlt := hgraph.numbered.below hstart
  have hmem := (hgraph.iterates ln (horder 0)).mem_iff
  cases profit with
  -- an arc still shortens a distance after as many rounds as there are nodes
  | some profit =>
      refine ⟨true, profit, hrun, fun _ => ?_, fun _ _ _ _ _ _ => rfl⟩
      obtain ⟨e, he, hshorter⟩ := hsome (Option.some_ne_none _)
      have hnodes : ∀ v : TokenNode, v ∈ (List.range r.nextNodeId).map TokenNode.mk ↔
          v.id < r.nextNodeId := fun v => by
        rw [List.mem_map]
        constructor
        · rintro ⟨i, hi, rfl⟩
          exact List.mem_range.mp hi
        · exact fun hv => ⟨v.id, List.mem_range.mpr hv, rfl⟩
      have hlength : ((List.range r.nextNodeId).map TokenNode.mk).length = r.nextNodeId := by
        rw [List.length_map, List.length_range]
      refine exists_negativeCycle ((hnodes start).mpr hlt) (fun e he => ?_) hprogress.attained ?_
        ((hmem e).mp he) hshorter
      · obtain ⟨hop, hhop, rfl⟩ := List.mem_map.mp he
        exact ⟨(hnodes _).mpr (hgraph.numbered.below (hgraph.known hop hhop)),
          (hnodes _).mpr (hgraph.numbered.below (hgraph.known_target hhop))⟩
      · rw [hlength]
        exact hprogress.within
  | none =>
      refine ⟨false, 0, hrun, fun h => absurd h Bool.false_ne_true, fun p x c hp hc hlight => ?_⟩
      -- no arc shortens a distance by more than the tolerance
      have hstable : Stable (r.arcs ln pools) (1 / 10 ^ 10) (distAt dist) :=
        fun e he => hnone rfl e ((hmem e).mpr he)
      have hfinite : distAt dist start ≠ ⊤ :=
        (hprogress.start_le.trans_lt (WithTop.coe_lt_top 0)).ne
      have hweight := hstable.weight_closed hfinite hp hc
      rw [nsmul_eq_mul] at hweight
      exact absurd hlight (not_lt.mpr (by linarith))

end Graph

/-- A pool in which the two tokens are worth the same. -/
def evenPool : LiquidityPool ℚ :=
  { venue := .uniswapV2, poolId := "even", tokenA := "ETH", tokenB := "WETH", feeTierBps := 30,
    reserveA := 1000, reserveB := 1000, price := 1 }

/-- A pool of the same tokens in which one of them is worth two of the other. -/
def dearPool : LiquidityPool ℚ :=
  { venue := .uniswapV2, poolId := "dear", tokenA := "ETH", tokenB := "WETH", feeTierBps := 30,
    reserveA := 1000, reserveB := 2000, price := 2 }

/-- The two pools, between which there is a profit to be made. -/
def twoPrices : List (LiquidityPool ℚ) := [evenPool, dearPool]

/-- The logarithm to the base two of the prices that occur. -/
def logOfPrice (x : ℚ) : ℚ := if x = 2 then 1 else if x = 1 / 2 then -1 else 0

/-- Its inverse. -/
def priceOfLog (x : ℚ) : ℚ := if x = 1 then 2 else if x = -1 then 1 / 2 else 1

/-- Bought in one pool and sold in the other one: the cycle is there, and it is detected. -/
theorem detectArbitrage_spec_twoPrices :
    ∃ r : SmartOrderRouter ℚ, new.buildGraph twoPrices = some r ∧
      ∃ profit, r.detectArbitrage logOfPrice priceOfLog (fun _ => r.adjacency.entries) "ETH" =
          some (true, profit) ∧
        NegativeCycle (r.arcs logOfPrice twoPrices) ⟨0⟩ := by
  have hnode : ((new : SmartOrderRouter ℚ).buildGraph twoPrices).bind
      (fun r => ((r.tokenToNode.lookup "ETH").bind fun start =>
        (r.detectArbitrage logOfPrice priceOfLog (fun _ => r.adjacency.entries) "ETH").map
          fun answer => (start, answer.1))) = some (⟨0⟩, true) := by decide +kernel
  obtain ⟨r, hbuild, hrest⟩ := Option.bind_eq_some_iff.mp hnode
  obtain ⟨start, hstart, hanswer⟩ := Option.bind_eq_some_iff.mp hrest
  obtain ⟨answer, hrun, hpair⟩ := Option.map_eq_some_iff.mp hanswer
  obtain ⟨rfl, htrue⟩ := Prod.mk.inj hpair
  obtain ⟨detected, profit, hdetect, hsound, -⟩ := detectArbitrage_spec Built.new hbuild hstart
    logOfPrice priceOfLog fun _ => List.Perm.refl r.adjacency.entries
  have hdetected : detected = true := by
    rw [hrun] at hdetect
    rw [← htrue, Option.some.inj hdetect]
  subst hdetected
  exact ⟨r, hbuild, profit, hdetect, hsound rfl⟩

end SmartOrderRouter

end StopTrading.Dex
