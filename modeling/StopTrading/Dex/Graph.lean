import StopTrading.Dex.Routing

/-!
# What `build_graph` builds

A hop is a pool in one of its two directions.  Behind `build_graph` every token of the pools has a
node of its own (`Numbered`), and the edges of a node are the hops from its token, in the order of
the pools (`Graph`, `graph_of_buildGraph`).

### Why hops

The source pushes two edges for each pool, and an edge records the pool, the other token and the
price.  A hop is the same with nothing computed: a pool and a direction.  All that is proved
about routes and cycles is stated over hops, where "the edge of a pool" is a field and needs no
search, and `graph_of_buildGraph` is the only place where the router's maps are looked at.

Tokens get numbers in the order in which they are met.  The numbers matter twice: they index the
array of distances, so each has to be below their count, and two tokens must not share one
(`Numbered.inj`).
-/

namespace StopTrading.Dex

universe u

variable {K : Type u}

/-- **A hop**: a pool, from A to B or the other way round. -/
structure Hop (K : Type u) where
  pool : LiquidityPool K
  reversed : Bool

namespace Hop

/-- The token that is put in. -/
def source (h : Hop K) : String := if h.reversed then h.pool.tokenB else h.pool.tokenA

/-- The token that comes out. -/
def target (h : Hop K) : String := if h.reversed then h.pool.tokenA else h.pool.tokenB

/-- The reserve of the token that is put in. -/
def reserveIn (h : Hop K) : K := if h.reversed then h.pool.reserveB else h.pool.reserveA

/-- The reserve of the token that comes out. -/
def reserveOut (h : Hop K) : K := if h.reversed then h.pool.reserveA else h.pool.reserveB

variable [Field K] [LinearOrder K]

/-- The price over the hop: that of the pool, or one over it on the way back. -/
def price (h : Hop K) : K :=
  if h.reversed then SmartOrderRouter.reversePrice h.pool else h.pool.price

end Hop

/-- The hops over some pools. -/
def hopsOver (pools : List (LiquidityPool K)) : List (Hop K) :=
  pools.flatMap fun pool => [⟨pool, false⟩, ⟨pool, true⟩]

/-- One pool more is two hops more. -/
theorem hopsOver_concat (pools : List (LiquidityPool K)) (pool : LiquidityPool K) :
    hopsOver (pools ++ [pool]) = hopsOver pools ++ [⟨pool, false⟩, ⟨pool, true⟩] := by
  rw [hopsOver, List.flatMap_append]
  rfl

/-- A hop is over one of the pools. -/
theorem mem_hopsOver {pools : List (LiquidityPool K)} {h : Hop K} :
    h ∈ hopsOver pools ↔ h.pool ∈ pools := by
  rw [hopsOver, List.mem_flatMap]
  constructor
  · rintro ⟨pool, hpool, hmem⟩
    rcases List.mem_cons.mp hmem with rfl | hmem
    · exact hpool
    · obtain rfl := List.mem_singleton.mp hmem
      exact hpool
  · intro hpool
    obtain ⟨pool, reversed⟩ := h
    refine ⟨pool, hpool, ?_⟩
    cases reversed
    · exact List.mem_cons_self
    · exact List.mem_cons_of_mem _ List.mem_cons_self

namespace SmartOrderRouter

/-- The node of a token. -/
def node (r : SmartOrderRouter K) (token : String) : TokenNode :=
  (r.tokenToNode.lookup token).getD ⟨0⟩

/-- **Tokens are numbered**, each with a number of its own. -/
structure Numbered (r : SmartOrderRouter K) : Prop where
  /-- numbers are below their count -/
  below : ∀ {t n}, r.tokenToNode.lookup t = some n → n.id < r.nextNodeId
  /-- and lead back to the token -/
  named : ∀ {t n}, r.tokenToNode.lookup t = some n → r.nodeToToken.lookup n = some t

/-- The router `r'` knows the tokens that `r` knows, and has its edges. -/
structure Extends (r r' : SmartOrderRouter K) : Prop where
  /-- the edges are the same -/
  adjacency_eq : r'.adjacency = r.adjacency
  /-- there are no fewer numbers -/
  le : r.nextNodeId ≤ r'.nextNodeId
  /-- and known tokens keep theirs -/
  lookup : ∀ {t n}, r.tokenToNode.lookup t = some n → r'.tokenToNode.lookup t = some n

section Nodes

variable {r r' : SmartOrderRouter K} {t : String} {n : TokenNode}

/-- A token that is known has its node. -/
theorem node_eq (h : r.tokenToNode.lookup t = some n) : r.node t = n := by
  rw [node, h]
  rfl

/-- A new router knows no token. -/
theorem Numbered.new : (new : SmartOrderRouter K).Numbered :=
  ⟨fun h => absurd h (Option.some_ne_none _).symm, fun h => absurd h (Option.some_ne_none _).symm⟩

/-- **Two tokens do not share a number.** -/
theorem Numbered.inj (h : r.Numbered) {t' : String} (ht : r.tokenToNode.lookup t = some n)
    (ht' : r.tokenToNode.lookup t' = some n) : t = t' :=
  Option.some.inj ((h.named ht).symm.trans (h.named ht'))

/-- A router extends itself, -/
theorem Extends.refl (r : SmartOrderRouter K) : Extends r r := ⟨rfl, le_rfl, id⟩

/-- and what extends it. -/
theorem Extends.trans {r'' : SmartOrderRouter K} (h : Extends r r') (h' : Extends r' r'') :
    Extends r r'' :=
  ⟨h'.adjacency_eq.trans h.adjacency_eq, h.le.trans h'.le, fun ht => h'.lookup (h.lookup ht)⟩

/-- **A token gets a number**, and those that have one keep it. -/
theorem getOrCreateNode_spec (h : r.Numbered) (hnode : r.getOrCreateNode t = some (n, r')) :
    r'.Numbered ∧ Extends r r' ∧ r'.tokenToNode.lookup t = some n := by
  unfold getOrCreateNode at hnode
  split at hnode
  · rename_i n' hknown
    obtain ⟨rfl, rfl⟩ := Prod.mk.inj (Option.some.inj hnode)
    exact ⟨h, .refl r, hknown⟩
  · rename_i hunknown
    split at hnode
    · obtain ⟨rfl, rfl⟩ := Prod.mk.inj (Option.some.inj hnode)
      have hold : ∀ {t' n'}, (r.tokenToNode.insert t ⟨r.nextNodeId⟩).lookup t' = some n' →
          (t' = t ∧ n' = ⟨r.nextNodeId⟩) ∨ (t' ≠ t ∧ r.tokenToNode.lookup t' = some n') :=
        fun {t' n'} hlookup => by
          by_cases ht : t' = t
          · subst ht
            rw [AList.lookup_insert] at hlookup
            exact Or.inl ⟨rfl, (Option.some.inj hlookup).symm⟩
          · rw [AList.lookup_insert_ne ht] at hlookup
            exact Or.inr ⟨ht, hlookup⟩
      refine ⟨⟨fun hlookup => ?_, fun hlookup => ?_⟩, ⟨rfl, Nat.le_succ _, fun {t' n'} ht' => ?_⟩,
        AList.lookup_insert _⟩
      · rcases hold hlookup with ⟨-, rfl⟩ | ⟨-, hlookup⟩
        · exact Nat.lt_succ_self _
        · exact Nat.lt_succ_of_lt (h.below hlookup)
      · rcases hold hlookup with ⟨rfl, rfl⟩ | ⟨-, hlookup⟩
        · exact AList.lookup_insert _
        · -- an older node has a smaller number
          refine (AList.lookup_insert_ne ?_).trans (h.named hlookup)
          rintro rfl
          exact absurd (h.below hlookup) (Nat.lt_irrefl _)
      · refine (AList.lookup_insert_ne ?_).trans ht'
        rintro rfl
        rw [hunknown] at ht'
        cases ht'
    · cases hnode

end Nodes

variable [Field K] [LinearOrder K]

/-- The edge that is a hop. -/
def edge (r : SmartOrderRouter K) (h : Hop K) : PoolEdge K where
  fromToken := r.node h.source
  toToken := r.node h.target
  poolId := h.pool.poolId
  venue := h.pool.venue
  feeBps := h.pool.feeTierBps
  reserveIn := h.reserveIn
  reserveOut := h.reserveOut
  price := h.price

/-- **The edges of the pools**: those of a node are the hops from its token. -/
structure Graph (r : SmartOrderRouter K) (pools : List (LiquidityPool K)) : Prop where
  /-- tokens have numbers -/
  numbered : r.Numbered
  /-- also those at which a hop ends -/
  known : ∀ h ∈ hopsOver pools, r.tokenToNode.lookup h.source = some (r.node h.source)
  /-- edges start at known nodes -/
  keys : ∀ n ∈ r.adjacency, n.id < r.nextNodeId
  /-- and are the hops of the pools, in order -/
  edges_eq : ∀ n, (r.adjacency.lookup n).getD [] =
    ((hopsOver pools).filter fun h => r.node h.source = n).map r.edge

section Graph

variable {r r' : SmartOrderRouter K} {pools : List (LiquidityPool K)}

omit [LinearOrder K] [Field K] in
/-- An edge is appended to those of its node, -/
theorem lookup_pushEdge (r : SmartOrderRouter K) (n m : TokenNode) (e : PoolEdge K) :
    ((r.pushEdge n e).adjacency.lookup m).getD [] =
      (r.adjacency.lookup m).getD [] ++ if n = m then [e] else [] := by
  unfold pushEdge
  by_cases h : m = n
  · subst h
    rw [AList.lookup_insert, if_pos rfl]
    rfl
  · rw [AList.lookup_insert_ne h, if_neg (Ne.symm h), List.append_nil]

omit [LinearOrder K] [Field K] in
/-- which has edges from then on. -/
theorem mem_pushEdge {n m : TokenNode} {e : PoolEdge K} :
    m ∈ (r.pushEdge n e).adjacency ↔ m = n ∨ m ∈ r.adjacency := AList.mem_insert _

/-- The other end of a hop is a source, too. -/
theorem Graph.known_target (h : r.Graph pools) {hop : Hop K} (hmem : hop ∈ hopsOver pools) :
    r.tokenToNode.lookup hop.target = some (r.node hop.target) := by
  have hpool : hop.pool ∈ pools := mem_hopsOver.mp hmem
  have hback : (⟨hop.pool, !hop.reversed⟩ : Hop K) ∈ hopsOver pools := mem_hopsOver.mpr hpool
  have hknown := h.known _ hback
  have htarget : (⟨hop.pool, !hop.reversed⟩ : Hop K).source = hop.target := by
    unfold Hop.source Hop.target
    cases hop.reversed <;> rfl
  rwa [htarget] at hknown

/-- **One pool** adds its two hops, each to its own node. -/
theorem Graph.addPool_spec (h : r.Graph pools) {pool : LiquidityPool K}
    (hadd : r.addPool pool = some r') : r'.Graph (pools ++ [pool]) := by
  unfold addPool at hadd
  obtain ⟨⟨n, r₁⟩, hfrom, hadd⟩ := Option.bind_eq_some_iff.mp hadd
  obtain ⟨⟨m, r₂⟩, hto, hadd⟩ := Option.bind_eq_some_iff.mp hadd
  obtain ⟨hnumbered₁, hext₁, hn₁⟩ := getOrCreateNode_spec h.numbered hfrom
  obtain ⟨hnumbered, hext₂, hm⟩ := getOrCreateNode_spec hnumbered₁ hto
  have hext := hext₁.trans hext₂
  have hn := hext₂.lookup hn₁
  obtain rfl := Option.some.inj hadd
  dsimp only at *
  have hsame : ∀ {t}, r.tokenToNode.lookup t = some (r.node t) → r₂.node t = r.node t :=
    fun ht => node_eq (hext.lookup ht)
  -- the edges that were there
  have hedge : ∀ hop ∈ hopsOver pools, r₂.edge hop = r.edge hop := fun hop hmem => by
    rw [edge, edge, hsame (h.known hop hmem), hsame (h.known_target hmem)]
  have hold : ∀ k, ((hopsOver pools).filter fun h => r₂.node h.source = k).map r₂.edge =
      (r.adjacency.lookup k).getD [] := fun k => by
    rw [h.edges_eq, List.filter_congr fun hop hmem => by rw [hsame (h.known hop hmem)]]
    exact List.map_congr_left fun hop hmem => hedge hop (List.mem_of_mem_filter hmem)
  refine ⟨⟨hnumbered.below, hnumbered.named⟩, fun hop hmem => ?_, fun k hk => ?_, fun k => ?_⟩
  · rw [hopsOver_concat, List.mem_append] at hmem
    rcases hmem with hmem | hmem
    · exact (hext.lookup (h.known hop hmem)).trans (congrArg some (hsame (h.known hop hmem)).symm)
    · rcases List.mem_cons.mp hmem with rfl | hmem
      · exact hn.trans (congrArg some (node_eq hn).symm)
      · obtain rfl := List.mem_singleton.mp hmem
        exact hm.trans (congrArg some (node_eq hm).symm)
  · rcases mem_pushEdge.mp hk with rfl | hk
    · exact hnumbered.below hm
    · rcases mem_pushEdge.mp hk with rfl | hk
      · exact hnumbered.below hn
      · rw [hext.adjacency_eq] at hk
        exact (h.keys k hk).trans_le hext.le
  · rw [lookup_pushEdge, lookup_pushEdge, hext.adjacency_eq, hopsOver_concat, List.filter_append,
      List.map_append]
    change _ = List.map r₂.edge (List.filter (fun h => r₂.node h.source = k) _) ++
      List.map r₂.edge (List.filter (fun h => r₂.node h.source = k) _)
    rw [hold, List.append_assoc]
    have hna : r₂.node pool.tokenA = n := node_eq hn
    have hmb : r₂.node pool.tokenB = m := node_eq hm
    by_cases hnk : n = k <;> by_cases hmk : m = k <;>
      simp [edge, Hop.source, Hop.target, Hop.reserveIn, Hop.reserveOut, Hop.price, hna, hmb,
        hnk, hmk]

/-- **`build_graph` builds the edges of the pools.** -/
theorem graph_of_buildGraph (h : r.Numbered) (hbuild : r.buildGraph pools = some r') :
    r'.Graph pools := by
  have hstart : ({ r with adjacency := ∅ } : SmartOrderRouter K).Graph [] :=
    ⟨⟨h.below, h.named⟩, fun _ hmem => absurd hmem List.not_mem_nil,
      fun n hn => absurd hn (AList.notMem_empty n), fun n => by rw [AList.lookup_empty]; rfl⟩
  have hrun : ∀ (rest before : List (LiquidityPool K)) (r₀ : SmartOrderRouter K),
      r₀.Graph before → rest.foldlM addPool r₀ = some r' → r'.Graph (before ++ rest) := by
    intro rest
    induction rest with
    | nil =>
        intro before r₀ hgraph hfold
        obtain rfl := Option.some.inj hfold
        rwa [List.append_nil]
    | cons pool rest ih =>
        intro before r₀ hgraph hfold
        rw [List.foldlM_cons] at hfold
        obtain ⟨r₁, hadd, hfold⟩ := Option.bind_eq_some_iff.mp hfold
        rw [List.append_cons]
        exact ih _ r₁ (hgraph.addPool_spec hadd) hfold
  exact hrun pools [] _ hstart hbuild

/-- What `build_graph` has built is numbered. -/
theorem Built.numbered (h : Built r) : r.Numbered := by
  induction h with
  | new => exact Numbered.new
  | buildGraph _ built ih => exact (graph_of_buildGraph ih built).numbered

end Graph

end SmartOrderRouter

end StopTrading.Dex
