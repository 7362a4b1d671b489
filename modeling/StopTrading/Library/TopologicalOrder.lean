import StopTrading.Library.GraphSearch

/-!
# Topological orders

An order of the nodes of a graph is topological when every edge leads forward in it.  `kahn`
computes one: it keeps, for every node, the number of edges that end there and start at a
node which is not yet in the order.  A node whose count is zero waits in a queue.  The node at
the head of the queue is appended to the order and its edges are taken away one by one.

The counts are a partial function, and to take an edge away from a node without a count is an
error.  What decreasing a count of zero gives is a parameter.

* `kahn_isTopologicalOrder` — with the right counts and no cycles the result is a topological
  order, whatever the order of the first queue.
* `evaluate_eq` — when every node computes a value from its own old value and those of the
  nodes with an edge to it, all topological orders compute the same.

### What is load-bearing

The invariant of Kahn's algorithm is `Inv`, and its center is `remaining`: the number of edges to
a node from nodes that are not yet in the order.  The counts of the program are claimed to be
these numbers; they are right at first by what the caller counted, and each round keeps them
right, because the head of the queue takes its edges with it.  `free` ties queue and order
together as the nodes whose number is zero, and that no node is left over at the end is the only
use of acyclicity.

The error branches are kept in the model (`Outcome.missing`): a program may have edges to nodes
it no longer has.  Under the hypotheses of `kahn_isTopologicalOrder` they are not taken.

`evaluate_eq` needs no algorithm.  It is about any two topological orders, and about functions
that read only what an edge leads from; the values are of any type, so nothing about arithmetic
is used.
-/

namespace StopTrading.TopologicalOrder

universe u

variable {V : Type u} [DecidableEq V]

open GraphSearch

/-- **An order of the nodes in which every edge leads forward.** -/
structure IsTopologicalOrder (edge : V → V → Prop) (nodes order : List V) : Prop where
  /-- every node once -/
  perm : order.Perm nodes
  /-- edges lead forward -/
  forward : ∀ v w, edge v w → order.idxOf v < order.idxOf w

/-- What stands before a node in a list comes earlier. -/
theorem idxOf_lt_of_mem_before {before after : List V} {v w : V}
    (nodup : (before ++ w :: after).Nodup) (hv : v ∈ before) :
    (before ++ w :: after).idxOf v < (before ++ w :: after).idxOf w := by
  have hw : w ∉ before := fun h => (List.nodup_append.mp nodup).2.2 w h w List.mem_cons_self rfl
  rw [List.idxOf_append_of_mem hv, List.idxOf_append_of_notMem hw, List.idxOf_cons_self]
  exact (List.idxOf_lt_length_of_mem hv).trans_le (Nat.le_add_right _ _)

/-- In a topological order the start of an edge stands before its end. -/
theorem IsTopologicalOrder.mem_before {edge : V → V → Prop} {nodes before after : List V}
    {v w : V} (h : IsTopologicalOrder edge nodes (before ++ w :: after)) (hedge : edge v w) :
    v ∈ before := by
  have hlt := h.forward v w hedge
  by_contra hv
  have hle : (before ++ w :: after).idxOf w ≤ before.length := by
    by_cases hw : w ∈ before
    · rw [List.idxOf_append_of_mem hw]
      exact (List.idxOf_lt_length_of_mem hw).le
    · rw [List.idxOf_append_of_notMem hw, List.idxOf_cons_self, Nat.add_zero]
  rw [List.idxOf_append_of_notMem hv] at hlt
  omega

/-! ## The algorithm -/

/-- How a run of the algorithm ends. -/
inductive Outcome (V : Type u) where
  /-- all edges have been taken away -/
  | order (result : List V)
  /-- an edge leads to a node without a count -/
  | missing (w : V)
  /-- the rounds were not enough -/
  | outOfRounds
  deriving Repr, DecidableEq

variable (pred : Nat → Nat) (next : V → List V)

/-- The edges to these nodes are taken away.  A node left without edges joins the queue, and
a node without a count is an error. -/
def takeEdges : List V → (V → Option Nat) → List V → Except V ((V → Option Nat) × List V)
  | [], count, queue => .ok (count, queue)
  | w :: ws, count, queue =>
      match count w with
      | none => .error w
      | some n =>
          takeEdges ws (Function.update count w (some (pred n)))
            (if pred n = 0 then queue ++ [w] else queue)

/-- **Kahn's algorithm** from the counts, a queue and the order so far. -/
def kahn : Nat → (V → Option Nat) → List V → List V → Outcome V
  | _, _, [], result => .order result
  | 0, _, _ :: _, _ => .outOfRounds
  | rounds + 1, count, v :: queue, result =>
      match takeEdges pred (next v) count queue with
      | .error w => .missing w
      | .ok (count, queue) => kahn rounds count queue (result ++ [v])

variable {pred next}

/-- The counts of these nodes are these numbers. -/
def Counts (count : V → Option Nat) (nodes : List V) (n : V → Nat) : Prop :=
  ∀ w ∈ nodes, count w = some (n w)

/-- One count changes. -/
theorem Counts.update {count : V → Option Nat} {nodes : List V} {n : V → Nat}
    (h : Counts count nodes n) (x : V) (m : Nat) :
    Counts (Function.update count x (some m)) nodes (Function.update n x m) := by
  intro w hw
  by_cases hwx : w = x
  · subst hwx
    rw [Function.update_self, Function.update_self]
  · rw [Function.update_of_ne hwx, Function.update_of_ne hwx]
    exact h w hw

/-- Edges are taken away one by one. -/
theorem sub_count_cons (n : V → Nat) (x : V) (ws : List V) (w : V) :
    n w - (x :: ws).count w = Function.update n x (n x - 1) w - ws.count w := by
  by_cases hwx : w = x
  · subst hwx
    rw [Function.update_self, List.count_cons_self]
    omega
  · rw [Function.update_of_ne hwx, List.count_cons_of_ne (Ne.symm hwx)]

/-- The edges that are still to be taken away are still there. -/
theorem count_le_update {n : V → Nat} {x : V} {ws : List V}
    (hle : ∀ w, (x :: ws).count w ≤ n w) (w : V) :
    ws.count w ≤ Function.update n x (n x - 1) w := by
  have hw := hle w
  by_cases hwx : w = x
  · subst hwx
    rw [List.count_cons_self] at hw
    rw [Function.update_self]
    omega
  · rw [List.count_cons_of_ne (Ne.symm hwx)] at hw
    rwa [Function.update_of_ne hwx]

/-- Nodes other than the first edge's have the edges that the others take away. -/
theorem mem_freed_of_ne {n : V → Nat} {x w : V} (ws : List V) (hwx : w ≠ x) :
    (w ∈ ws ∧ Function.update n x (n x - 1) w = ws.count w) ↔
      w ∈ x :: ws ∧ n w = (x :: ws).count w := by
  rw [List.mem_cons, or_iff_right hwx, List.count_cons_of_ne (Ne.symm hwx),
    Function.update_of_ne hwx]

/-- **What taking edges away does**: every count falls by the number of edges to its node,
and the nodes whose count that makes zero join the queue. -/
theorem takeEdges_spec (hpred : ∀ n, pred (n + 1) = n) {nodes : List V} (ws : List V) :
    ∀ (count : V → Option Nat) (queue : List V) (n : V → Nat), (∀ w ∈ ws, w ∈ nodes) →
      Counts count nodes n → (∀ w, ws.count w ≤ n w) →
      ∃ count' added, takeEdges pred ws count queue = .ok (count', queue ++ added) ∧
        Counts count' nodes (fun w => n w - ws.count w) ∧ added.Nodup ∧
        ∀ w, w ∈ added ↔ w ∈ ws ∧ n w = ws.count w := by
  induction ws with
  | nil =>
      intro count queue n _ hcount _
      exact ⟨count, [], by simp [takeEdges], hcount, List.nodup_nil, by simp⟩
  | cons x ws ih =>
      intro count queue n hsub hcount hle
      have hpos : ws.count x + 1 ≤ n x := by simpa using hle x
      have hdecrease : pred (n x) = n x - 1 := by
        obtain ⟨k, hk⟩ : ∃ k, n x = k + 1 := ⟨n x - 1, by omega⟩
        rw [hk, hpred]
        rfl
      -- the rest of the edges, with one edge to `x` less
      obtain ⟨count', added, htake, hcounts, hnodup, hadded⟩ :=
        ih _ (if n x - 1 = 0 then queue ++ [x] else queue) _
          (fun w hw => hsub w (List.mem_cons_of_mem x hw)) (hcount.update x (n x - 1))
          (count_le_update hle)
      have htake' : takeEdges pred (x :: ws) count queue =
          .ok (count', (if n x - 1 = 0 then queue ++ [x] else queue) ++ added) := by
        simp only [takeEdges, hcount x (hsub x List.mem_cons_self), hdecrease, htake]
      have hcounts' : Counts count' nodes (fun w => n w - (x :: ws).count w) := by
        intro w hw
        rw [hcounts w hw]
        exact congrArg some (sub_count_cons n x ws w).symm
      by_cases hzero : n x - 1 = 0
      · -- this was the last edge to `x`, and `x` does not come again
        have hone : n x = 1 := by omega
        have hnot : x ∉ ws := fun h => by
          have := List.count_pos_iff.mpr h
          omega
        refine ⟨count', x :: added, by rw [htake', if_pos hzero, List.append_assoc]; rfl, hcounts',
          List.nodup_cons.mpr ⟨fun h => hnot ((hadded x).mp h).1, hnodup⟩, fun w => ?_⟩
        by_cases hwx : w = x
        · subst hwx
          simp [hone, List.count_eq_zero_of_not_mem hnot]
        · rw [List.mem_cons, or_iff_right hwx, hadded, mem_freed_of_ne ws hwx]
      · -- `x` has edges left, and joins the queue when the last of them goes, if it does
        refine ⟨count', added, by rw [htake', if_neg hzero], hcounts', hnodup, fun w => ?_⟩
        by_cases hwx : w = x
        · subst hwx
          rw [hadded, List.count_cons_self, Function.update_self,
            and_iff_right (List.mem_cons_self (a := w))]
          constructor
          · rintro ⟨-, heq⟩
            omega
          · intro heq
            have : 0 < ws.count w := by omega
            exact ⟨List.count_pos_iff.mp this, by omega⟩
        · rw [hadded, mem_freed_of_ne ws hwx]

variable (next) in
/-- The edges to a node from nodes that are not in the order. -/
def remaining (nodes result : List V) (w : V) : Nat :=
  ∑ v ∈ nodes.toFinset \ result.toFinset, (next v).count w

variable (next) in
/-- One more node in the order takes its edges away. -/
theorem remaining_append {nodes result : List V} {v : V} (hv : v ∈ nodes) (new : v ∉ result)
    (w : V) :
    remaining next nodes (result ++ [v]) w + (next v).count w = remaining next nodes result w := by
  have hmem : v ∈ nodes.toFinset \ result.toFinset := by simpa using ⟨hv, new⟩
  have hinsert : (result ++ [v]).toFinset = insert v result.toFinset := by
    ext x
    simp
  rw [remaining, remaining, hinsert, Finset.sdiff_insert, Finset.sum_erase_add _ _ hmem]

/-- No edge is left exactly if all of them start in the order. -/
theorem remaining_eq_zero_iff {nodes result : List V} {w : V} :
    remaining next nodes result w = 0 ↔ ∀ v ∈ nodes, w ∈ next v → v ∈ result := by
  rw [remaining, Finset.sum_eq_zero_iff]
  constructor
  · intro h v hv hedge
    by_contra hnot
    have hzero := h v (by simpa using ⟨hv, hnot⟩)
    exact absurd hedge (List.count_eq_zero.mp hzero)
  · intro h v hv
    obtain ⟨hv, hnot⟩ := Finset.mem_sdiff.mp hv
    refine List.count_eq_zero.mpr fun hedge => hnot ?_
    exact List.mem_toFinset.mpr (h v (List.mem_toFinset.mp hv) hedge)

/-- **The invariant of the algorithm.**  The counts are right, and what is in the order or in
the queue is what no edge is left to. -/
structure Inv (next : V → List V) (nodes : List V) (count : V → Option Nat)
    (queue result : List V) : Prop where
  /-- the counts are those of the edges that are left -/
  counts : Counts count nodes (remaining next nodes result)
  /-- a node waits once, and not after it has been put in the order -/
  nodup : (result ++ queue).Nodup
  /-- what is in the order or waits is what no edge is left to -/
  free : ∀ w, w ∈ result ++ queue ↔ w ∈ nodes ∧ remaining next nodes result w = 0
  /-- and edges lead forward so far -/
  ordered : ∀ before w after, result = before ++ w :: after → ∀ v ∈ nodes, w ∈ next v → v ∈ before

/-- At first the queue holds the nodes without an edge. -/
theorem Inv.start {nodes : List V} {count : V → Option Nat} {queue : List V}
    (counts : Counts count nodes (remaining next nodes [])) (nodup : queue.Nodup)
    (free : ∀ w, w ∈ queue ↔ w ∈ nodes ∧ remaining next nodes [] w = 0) :
    Inv next nodes count queue [] where
  counts := counts
  nodup := nodup
  free := free
  ordered before w after h := by simp at h

/-- One round appends the head of the queue. -/
theorem Inv.step (hpred : ∀ n, pred (n + 1) = n) {nodes : List V}
    (edges : ∀ v w, w ∈ next v → w ∈ nodes) {count : V → Option Nat} {v : V}
    {queue result : List V} (inv : Inv next nodes count (v :: queue) result) :
    ∃ count' added, takeEdges pred (next v) count queue = .ok (count', queue ++ added) ∧
      Inv next nodes count' (queue ++ added) (result ++ [v]) := by
  obtain ⟨hv, hfree⟩ := (inv.free v).mp (by simp)
  have hnew : v ∉ result := fun h =>
    (List.nodup_append.mp inv.nodup).2.2 v h v List.mem_cons_self rfl
  have hremaining := remaining_append next hv hnew
  obtain ⟨count', added, htake, hcounts, hnodup, hadded⟩ :=
    takeEdges_spec hpred (next v) count queue (remaining next nodes result) (edges v) inv.counts
      (fun w => by have := hremaining w; omega)
  refine ⟨count', added, htake, ⟨fun w hw => ?_, ?_, fun w => ?_, ?_⟩⟩
  · rw [hcounts w hw]
    exact congrArg some (Nat.sub_eq_of_eq_add (hremaining w).symm)
  · have hrest : (result ++ [v] ++ queue).Nodup := by simpa using inv.nodup
    rw [← List.append_assoc, List.nodup_append]
    refine ⟨hrest, hnodup, fun w hw x hx => ?_⟩
    rintro rfl
    -- a node that was free has no edge left to be taken away
    have hold : w ∈ result ++ v :: queue := by simpa [or_assoc] using hw
    have hpos := List.count_pos_iff.mpr ((hadded w).mp hx).1
    have heq := ((hadded w).mp hx).2
    have hzero := ((inv.free w).mp hold).2
    omega
  · have hmem : w ∈ result ++ [v] ++ (queue ++ added) ↔ w ∈ result ++ v :: queue ∨ w ∈ added := by
      simp [or_assoc]
    rw [hmem, inv.free, hadded]
    have := hremaining w
    constructor
    · rintro (⟨hw, hzero⟩ | ⟨hedge, heq⟩)
      · exact ⟨hw, by omega⟩
      · exact ⟨edges v w hedge, by omega⟩
    · rintro ⟨hw, hzero⟩
      by_cases hedge : w ∈ next v
      · exact Or.inr ⟨hedge, by omega⟩
      · have hcount := List.count_eq_zero_of_not_mem hedge
        exact Or.inl ⟨hw, by omega⟩
  · intro before w after hsplit x hx hedge
    rcases List.eq_nil_or_concat after with rfl | ⟨after', y, rfl⟩
    · obtain ⟨rfl, hlast⟩ := List.append_inj' hsplit rfl
      obtain rfl : v = w := (List.cons.inj hlast).1
      exact (remaining_eq_zero_iff.mp hfree) x hx hedge
    · have hsplit' : result ++ [v] = (before ++ w :: after') ++ [y] := by simpa using hsplit
      exact inv.ordered before w after' (List.append_inj' hsplit' rfl).1 x hx hedge

/-- A run that starts in the invariant ends in an order that satisfies it. -/
theorem kahn_of_inv (hpred : ∀ n, pred (n + 1) = n) {nodes : List V}
    (edges : ∀ v w, w ∈ next v → w ∈ nodes) {rounds : Nat} {count : V → Option Nat}
    {queue result : List V} (inv : Inv next nodes count queue result)
    (enough : nodes.length ≤ rounds + result.length) :
    ∃ count' order, kahn pred next rounds count queue result = .order order ∧
      Inv next nodes count' [] order := by
  induction rounds generalizing count queue result with
  | zero =>
      have hsub : result ++ queue ⊆ nodes := fun w hw => ((inv.free w).mp hw).1
      have hlength := (List.subperm_of_subset inv.nodup hsub).length_le
      have hempty : queue = [] := by
        rw [List.length_append] at hlength
        exact List.length_eq_zero_iff.mp (by omega)
      subst hempty
      exact ⟨count, result, rfl, inv⟩
  | succ rounds ih =>
      cases queue with
      | nil => exact ⟨count, result, rfl, inv⟩
      | cons v queue =>
          obtain ⟨count', added, htake, inv'⟩ := inv.step hpred edges
          obtain ⟨count'', order, hkahn, hinv⟩ := ih inv' (by
            rw [List.length_append, List.length_singleton]
            omega)
          exact ⟨count'', order, by simp only [kahn, htake, hkahn], hinv⟩

/-- With an empty queue every node is in the order: among the others there would be one that
no other leads to. -/
theorem Inv.isTopologicalOrder {nodes : List V} (nodup : nodes.Nodup)
    (acyclic : Acyclic fun v w => v ∈ nodes ∧ w ∈ nodes ∧ w ∈ next v) {count : V → Option Nat}
    {order : List V} (inv : Inv next nodes count [] order) :
    IsTopologicalOrder (fun v w => v ∈ nodes ∧ w ∈ nodes ∧ w ∈ next v) nodes order := by
  have hnodup : order.Nodup := by simpa using inv.nodup
  have hfree : ∀ w, w ∈ order ↔ w ∈ nodes ∧ remaining next nodes order w = 0 := by
    simpa using inv.free
  have hall : ∀ w, w ∈ nodes → w ∈ order := by
    by_contra hsome
    push Not at hsome
    obtain ⟨w, hw, hnot⟩ := hsome
    obtain ⟨x, hx, hsource⟩ := acyclic.exists_source (s := nodes.toFinset \ order.toFinset)
      ⟨w, by simpa using ⟨hw, hnot⟩⟩
    obtain ⟨hxNodes, hxOrder⟩ := Finset.mem_sdiff.mp hx
    rw [List.mem_toFinset] at hxNodes hxOrder
    refine hxOrder ((hfree x).mpr ⟨hxNodes, remaining_eq_zero_iff.mpr fun v hv hedge => ?_⟩)
    by_contra hvOrder
    exact hsource v (by simpa using ⟨hv, hvOrder⟩) ⟨hv, hxNodes, hedge⟩
  refine ⟨(List.perm_ext_iff_of_nodup hnodup nodup).mpr fun w =>
    ⟨fun hw => ((hfree w).mp hw).1, hall w⟩, fun v w hedge => ?_⟩
  obtain ⟨before, after, hsplit⟩ := List.append_of_mem (hall w hedge.2.1)
  have hv := inv.ordered before w after hsplit v hedge.1 hedge.2.2
  rw [hsplit] at hnodup ⊢
  exact idxOf_lt_of_mem_before hnodup hv

/-- **Kahn's algorithm is right**: with a count of the edges to every node, any order of the
nodes without one as its queue and a round for every node it ends, in a topological order. -/
theorem kahn_isTopologicalOrder (hpred : ∀ n, pred (n + 1) = n) {nodes : List V}
    (nodup : nodes.Nodup) (edges : ∀ v w, w ∈ next v → w ∈ nodes)
    (acyclic : Acyclic fun v w => v ∈ nodes ∧ w ∈ nodes ∧ w ∈ next v) {count : V → Option Nat}
    (counts : Counts count nodes (remaining next nodes [])) {queue : List V}
    (queueNodup : queue.Nodup)
    (free : ∀ w, w ∈ queue ↔ w ∈ nodes ∧ remaining next nodes [] w = 0) {rounds : Nat}
    (enough : nodes.length ≤ rounds) :
    ∃ order, kahn pred next rounds count queue [] = .order order ∧
      IsTopologicalOrder (fun v w => v ∈ nodes ∧ w ∈ nodes ∧ w ∈ next v) nodes order := by
  obtain ⟨count', order, hkahn, hinv⟩ := kahn_of_inv hpred edges
    (Inv.start counts queueNodup free) enough
  exact ⟨order, hkahn, hinv.isTopologicalOrder nodup acyclic⟩

/-! ## Evaluation in an order -/

section Evaluate

variable {R : Type*} (compute : V → (V → R) → R)

/-- Every node of a list computes its value from the values so far. -/
def evaluate (values : V → R) (order : List V) : V → R :=
  order.foldl (fun values v => Function.update values v (compute v values)) values

variable {compute}

/-- One node after the other. -/
theorem evaluate_cons (values : V → R) (v : V) (order : List V) :
    evaluate compute values (v :: order) =
      evaluate compute (Function.update values v (compute v values)) order := rfl

/-- One part after the other. -/
theorem evaluate_append (values : V → R) (before after : List V) :
    evaluate compute values (before ++ after) =
      evaluate compute (evaluate compute values before) after :=
  List.foldl_append

/-- A node that does not come keeps its value. -/
theorem evaluate_of_not_mem {values : V → R} {order : List V} {v : V} (h : v ∉ order) :
    evaluate compute values order v = values v := by
  induction order generalizing values with
  | nil => rfl
  | cons w order ih =>
      rw [List.mem_cons, not_or] at h
      rw [evaluate_cons, ih h.2, Function.update_of_ne h.1]

/-- A node that comes once has the value it computes when it comes. -/
theorem evaluate_at {values : V → R} {before after : List V} {v : V}
    (nodup : (before ++ v :: after).Nodup) :
    evaluate compute values (before ++ v :: after) v =
      compute v (evaluate compute values before) := by
  have hafter : v ∉ after := (List.nodup_cons.mp (List.nodup_append.mp nodup).2.1).1
  rw [evaluate_append, evaluate_cons, evaluate_of_not_mem hafter, Function.update_self]

/-- A node that has come keeps its value. -/
theorem evaluate_of_mem_before {values : V → R} {before after : List V} {v : V}
    (nodup : (before ++ after).Nodup) (hv : v ∈ before) :
    evaluate compute values (before ++ after) v = evaluate compute values before v := by
  have hafter : v ∉ after := fun h => (List.nodup_append.mp nodup).2.2 v hv v h rfl
  rw [evaluate_append, evaluate_of_not_mem hafter]

/-- **All topological orders compute the same**, by induction along one of them: what a node
reads has been computed before it in both. -/
theorem evaluate_eq {edge : V → V → Prop} {nodes order order' : List V} (nodup : nodes.Nodup)
    (local' : ∀ v values values', values v = values' v →
      (∀ u, edge u v → values u = values' u) → compute v values = compute v values')
    (h : IsTopologicalOrder edge nodes order) (h' : IsTopologicalOrder edge nodes order')
    (values : V → R) : evaluate compute values order = evaluate compute values order' := by
  have hnodup : order.Nodup := h.perm.nodup_iff.mpr nodup
  have hnodup' : order'.Nodup := h'.perm.nodup_iff.mpr nodup
  -- by induction on the part of the first order that has been visited
  have hprefix : ∀ before after, order = before ++ after → ∀ v ∈ before,
      evaluate compute values order v = evaluate compute values order' v := by
    intro before
    induction before using List.reverseRecOn with
    | nil => exact fun _ _ v hv => absurd hv List.not_mem_nil
    | append_singleton before w ih =>
        intro after hsplit
        have hsplit' : order = before ++ w :: after := by rw [hsplit, List.append_assoc]; rfl
        have hbefore := ih (w :: after) hsplit'
        intro v hv
        rcases List.mem_append.mp hv with hv | hv
        · exact hbefore v hv
        · obtain rfl : v = w := List.mem_singleton.mp hv
          obtain ⟨before', after', hother⟩ := List.append_of_mem
            ((h.perm.trans h'.perm.symm).mem_iff.mp (hsplit' ▸ by simp : v ∈ order))
          have hv' : v ∉ before := fun hmem =>
            (List.nodup_append.mp (hsplit' ▸ hnodup)).2.2 v hmem v List.mem_cons_self rfl
          have hvOther : v ∉ before' := fun hmem =>
            (List.nodup_append.mp (hother ▸ hnodup')).2.2 v hmem v List.mem_cons_self rfl
          calc evaluate compute values order v
              = compute v (evaluate compute values before) := by
                rw [hsplit', evaluate_at (hsplit' ▸ hnodup)]
            _ = compute v (evaluate compute values before') := by
                refine local' v _ _ ?_ fun u hedge => ?_
                · rw [evaluate_of_not_mem hv', evaluate_of_not_mem hvOther]
                · have hu := (hsplit' ▸ h).mem_before hedge
                  -- both orders have visited it before
                  have hu' := (hother ▸ h').mem_before hedge
                  rw [← evaluate_of_mem_before (hsplit' ▸ hnodup) hu, ← hsplit', hbefore u hu,
                    hother, evaluate_of_mem_before (hother ▸ hnodup') hu']
            _ = evaluate compute values order' v := by
                rw [hother, evaluate_at (hother ▸ hnodup')]
  funext v
  by_cases hv : v ∈ order
  · exact hprefix order [] (List.append_nil order).symm v hv
  · have hv' : v ∉ order' := fun hmem => hv ((h.perm.trans h'.perm.symm).mem_iff.mpr hmem)
    rw [evaluate_of_not_mem hv, evaluate_of_not_mem hv']

end Evaluate

end StopTrading.TopologicalOrder
