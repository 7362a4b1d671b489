import StopTrading.Dex.Arbitrage
import StopTrading.Library.Walks

/-!
# What a route quotes

`find_paths_recursive` hands to `construct_route` the nodes of a path and the amount that has
already come out at its end, and `construct_route` passes that amount through the path again,
through the first pool between any two nodes.

* `findPathsRecursive_eq` — there is a route for every choice of pools along every path.
* `quotesSoundly_iff` — so the routes say what they execute, and differ, only where every path gives
  back the amount that was put in and there is one pool only for each of its hops.

### What is load-bearing

The search and the construction of routes are described separately.  The search finds the paths
of the library, `Walks.IsPath`, once for every choice of pools along them, and hands each on with
the amount that has come out at its end.  The construction forgets the choice: for every two
tokens that follow one another it takes the first edge between them (`findEdge_spec`), and it
starts from the amount that it was handed.

So a route is right only if these two mistakes do not show. A route names the amount that was
handed on as what is put in, so this has to be what was asked about; and two choices of pools
along one path make the same route, so there must not be two.

Reserves are positive and a fee is below the whole (`Sound`). Then the two ways in which the
source computes an output agree (`calculateOutput_eq`), although only one of them tests its
denominator.
-/

namespace StopTrading.Dex

open Walks
open SmartOrderRouter (feeMultiplier)

universe u

variable {K : Type u} [Field K] [LinearOrder K]

/-! ## Quotes -/

/-- `LiquidityPool::get_amount_out`, the output for a constant product. -/
def LiquidityPool.getAmountOut (pool : LiquidityPool K) (amountIn : K) (tokenInIsA : Bool) : K :=
  let feeMultiplier := feeMultiplier (pool.feeTierBps : K)
  if tokenInIsA then
    amountIn * pool.reserveB * feeMultiplier / (pool.reserveA + amountIn * feeMultiplier)
  else amountIn * pool.reserveA * feeMultiplier / (pool.reserveB + amountIn * feeMultiplier)

/-- The pools that there are: positive reserves, and a fee below the whole. -/
structure LiquidityPool.Sound (pool : LiquidityPool K) : Prop where
  /-- there is something of the one token -/
  reserveA_pos : 0 < pool.reserveA
  /-- and of the other -/
  reserveB_pos : 0 < pool.reserveB
  /-- and the fee is not the whole -/
  fee_lt : pool.feeTierBps < 10000

/-- What comes out of a hop. -/
def Hop.output (h : Hop K) (amount : K) : K := h.pool.getAmountOut amount (!h.reversed)

/-- What comes out behind some hops. -/
def outputThrough (hops : List (Hop K)) (amount : K) : K :=
  hops.foldl (fun amount h => h.output amount) amount

/-- **A route executes what it quotes**: its pools connect its tokens, and its output is that of the
amount through them. -/
structure SwapRoute.Executes (pools : List (LiquidityPool K)) (amount : K) (route : SwapRoute K) :
    Prop where
  /-- it is about the amount that is asked about -/
  amountIn_eq : route.amountIn = amount
  /-- and its pools lead from token to token, to its output -/
  exists_hops : ∃ hops : List (Hop K), (∀ h ∈ hops, h.pool ∈ pools) ∧
    route.tokens.length = hops.length + 1 ∧
    route.tokens.zip route.tokens.tail = hops.map (fun h => (h.source, h.target)) ∧
    route.pools = hops.map (·.pool.poolId) ∧ route.venues = hops.map (·.pool.venue) ∧
    route.amountOut = outputThrough hops amount

/-- **All routes execute what they quote**, and no two of them are the same. -/
structure QuotesSoundly (pools : List (LiquidityPool K)) (amount : K)
    (routes : List (SwapRoute K)) : Prop where
  /-- every route executes what it quotes -/
  executes : ∀ route ∈ routes, route.Executes pools amount
  /-- and is returned once -/
  nodup : routes.Nodup

/-- The paths that are searched: at most `MAX_HOPS` hops, and no token twice. -/
structure Searched (pools : List (LiquidityPool K)) (tokenIn tokenOut : String)
    (P : List (Hop K)) : Prop where
  /-- no token comes twice -/
  path : IsPath Hop.source Hop.target (hopsOver pools) tokenOut tokenIn [] P
  /-- there is a hop -/
  ne_nil : P ≠ []
  /-- and no more than `MAX_HOPS` -/
  length_le : P.length ≤ maxHops

/-- **Every path gives back what is put in**, and no hop of one can be made over another pool. -/
structure GivesBack (pools : List (LiquidityPool K)) (tokenIn tokenOut : String) (amount : K) :
    Prop where
  /-- the output of every path is its input -/
  same : ∀ P, Searched pools tokenIn tokenOut P → outputThrough P amount = amount
  /-- and its pools are without alternative -/
  sole : ∀ P, Searched pools tokenIn tokenOut P → ∀ h ∈ P,
    multiplicity Hop.source Hop.target (hopsOver pools) h = 1

section Output

variable {h : Hop K} {amount : K}

/-- There is something of both tokens in a pool, -/
theorem Hop.reserveIn_pos (hsound : h.pool.Sound) : 0 < h.reserveIn := by
  unfold Hop.reserveIn
  cases h.reversed
  · exact hsound.reserveA_pos
  · exact hsound.reserveB_pos

/-- whichever is put in. -/
theorem Hop.reserveOut_pos (hsound : h.pool.Sound) : 0 < h.reserveOut := by
  unfold Hop.reserveOut
  cases h.reversed
  · exact hsound.reserveB_pos
  · exact hsound.reserveA_pos

omit [LinearOrder K] in
/-- The output, in terms of what is put in and what comes out. -/
theorem Hop.output_eq (h : Hop K) (amount : K) :
    h.output amount = amount * h.reserveOut * feeMultiplier (h.pool.feeTierBps : K) /
      (h.reserveIn + amount * feeMultiplier (h.pool.feeTierBps : K)) := by
  unfold Hop.output LiquidityPool.getAmountOut Hop.reserveOut Hop.reserveIn
  cases h.reversed <;> rfl

variable [IsStrictOrderedRing K]

/-- A fee leaves something, -/
theorem feeMultiplier_pos {pool : LiquidityPool K} (hsound : pool.Sound) :
    0 < feeMultiplier (pool.feeTierBps : K) := by
  have hlt : (pool.feeTierBps : K) < 10000 := by exact_mod_cast hsound.fee_lt
  have hdiv : (pool.feeTierBps : K) / 10000 < 1 := (div_lt_one (by norm_num)).mpr hlt
  exact sub_pos.mpr hdiv

/-- so that the quotient is one, -/
theorem Hop.denominator_pos (hsound : h.pool.Sound) (hamount : 0 < amount) :
    0 < h.reserveIn + amount * feeMultiplier (h.pool.feeTierBps : K) :=
  add_pos (Hop.reserveIn_pos hsound) (mul_pos hamount (feeMultiplier_pos hsound))

/-- and something comes out. -/
theorem Hop.output_pos (hsound : h.pool.Sound) (hamount : 0 < amount) : 0 < h.output amount := by
  rw [Hop.output_eq]
  exact div_pos (mul_pos (mul_pos hamount (Hop.reserveOut_pos hsound)) (feeMultiplier_pos hsound))
    (Hop.denominator_pos hsound hamount)

/-- **The two ways of computing an output** agree. -/
theorem calculateOutput_eq (hsound : h.pool.Sound) (hamount : 0 < amount) :
    SmartOrderRouter.calculateOutput amount h.reserveIn h.reserveOut (h.pool.feeTierBps : K) =
      h.output amount := by
  rw [Hop.output_eq]
  exact if_pos (Hop.denominator_pos hsound hamount)

/-- Something comes out behind any hops. -/
theorem outputThrough_pos {hops : List (Hop K)} (hsound : ∀ h ∈ hops, h.pool.Sound)
    (hamount : 0 < amount) : 0 < outputThrough hops amount := by
  induction hops generalizing amount with
  | nil => exact hamount
  | cons h hops ih =>
      rw [List.forall_mem_cons] at hsound
      exact ih hsound.2 (Hop.output_pos hsound.1 hamount)

end Output

namespace SmartOrderRouter

/-! ## Constructing a route -/

section Construct

variable {r : SmartOrderRouter K} {pools : List (LiquidityPool K)}

/-- A token that the router knows. -/
def Knows (r : SmartOrderRouter K) (t : String) : Prop :=
  r.tokenToNode.lookup t = some (r.node t)

/-- Tokens that are known are told apart by their nodes. -/
theorem Graph.node_inj (h : r.Graph pools) {s t : String} (hs : r.Knows s) (ht : r.Knows t) :
    r.node s = r.node t ↔ s = t := by
  refine ⟨fun heq => h.numbered.inj hs ?_, congrArg r.node⟩
  rw [heq]
  exact ht

/-- The edges of a token are the hops from it. -/
theorem Graph.edges_of_known (h : r.Graph pools) {x : String} (hx : r.Knows x) :
    (r.adjacency.lookup (r.node x)).getD [] =
      ((hopsOver pools).filter fun h => h.source = x).map r.edge := by
  rw [h.edges_eq]
  refine congrArg (List.map r.edge) (List.filter_congr fun hop hmem => ?_)
  exact decide_eq_decide.mpr (h.node_inj (h.known hop hmem) hx)

/-- **The first edge** between two tokens is a hop between them. -/
theorem Graph.findEdge_spec (h : r.Graph pools) {hop : Hop K} (hmem : hop ∈ hopsOver pools) :
    ∃ g, g.pool ∈ pools ∧ g.source = hop.source ∧ g.target = hop.target ∧
      r.findEdge (r.node hop.source) (r.node hop.target) = some (r.edge g) := by
  have hsource : r.Knows hop.source := h.known hop hmem
  have htarget : r.Knows hop.target := h.known_target hmem
  have hedges := h.edges_of_known hsource
  have hfind : r.findEdge (r.node hop.source) (r.node hop.target) =
      ((r.adjacency.lookup (r.node hop.source)).getD []).find?
        fun e => e.toToken = r.node hop.target := by
    unfold findEdge
    cases r.adjacency.lookup (r.node hop.source) <;> rfl
  have hhere : r.edge hop ∈ (r.adjacency.lookup (r.node hop.source)).getD [] := by
    rw [hedges]
    exact List.mem_map_of_mem (List.mem_filter.mpr ⟨hmem, decide_eq_true rfl⟩)
  have hsome : (r.findEdge (r.node hop.source) (r.node hop.target)).isSome := by
    rw [hfind, List.find?_isSome]
    exact ⟨r.edge hop, hhere, decide_eq_true rfl⟩
  obtain ⟨e, he⟩ := Option.isSome_iff_exists.mp hsome
  have hfirst := hfind.symm.trans he
  have hmem' := List.mem_of_find?_eq_some hfirst
  have hto := List.find?_some hfirst
  rw [hedges] at hmem'
  obtain ⟨g, hg, rfl⟩ := List.mem_map.mp hmem'
  obtain ⟨hg, hsame⟩ := List.mem_filter.mp hg
  exact ⟨g, mem_hopsOver.mp hg, of_decide_eq_true hsame,
    (h.node_inj (h.known_target hg) htarget).mp (of_decide_eq_true hto), he⟩

omit [Field K] [LinearOrder K] in
/-- Nodes of known tokens are read back. -/
theorem mapM_nodeToToken (hnumbered : r.Numbered) {path : List String}
    (hknown : ∀ t ∈ path, r.Knows t) :
    (path.map r.node).mapM (fun node => r.nodeToToken.lookup node) = some path := by
  induction path with
  | nil => rfl
  | cons t path ih =>
      rw [List.forall_mem_cons] at hknown
      rw [List.map_cons, List.mapM_cons, ih hknown.2, hnumbered.named hknown.1]
      rfl

/-- The hops that `construct_route` finds along a path: the first ones between its tokens. -/
theorem Graph.exists_first (h : r.Graph pools) [IsStrictOrderedRing K]
    (hsound : ∀ pool ∈ pools, pool.Sound) {x y : String} {P : List (Hop K)}
    (hwalk : IsWalk Hop.source Hop.target (hopsOver pools) x P y) :
    ∃ gs : List (Hop K), (∀ g ∈ gs, g.pool ∈ pools) ∧ gs.length = P.length ∧
      (x :: P.map Hop.target).zip (P.map Hop.target) = gs.map (fun g => (g.source, g.target)) ∧
      (hops ((x :: P.map Hop.target).map r.node)).mapM (fun hop => r.findEdge hop.1 hop.2) =
        some (gs.map r.edge) ∧
      ∀ amount, 0 < amount → (hops ((x :: P.map Hop.target).map r.node)).foldl (fun amount hop =>
          match r.findEdge hop.1 hop.2 with
          | some e => calculateOutput amount e.reserveIn e.reserveOut e.feeBps
          | none => amount) amount = outputThrough gs amount := by
  induction P generalizing x with
  | nil => exact ⟨[], fun g hg => absurd hg List.not_mem_nil, rfl, rfl, rfl, fun _ _ => rfl⟩
  | cons hop P ih =>
      obtain ⟨hmem, rfl, hrest⟩ := hwalk
      obtain ⟨g, hg, hsource, htarget, hfind⟩ := h.findEdge_spec hmem
      obtain ⟨gs, hgs, hlength, hpairs, hedges, houtput⟩ := ih hrest
      have hhops : hops ((hop.source :: (hop :: P).map Hop.target).map r.node) =
          (r.node hop.source, r.node hop.target) ::
            hops ((hop.target :: P.map Hop.target).map r.node) := rfl
      refine ⟨g :: gs, List.forall_mem_cons.mpr ⟨hg, hgs⟩, ?_, ?_, ?_, fun amount hamount => ?_⟩
      · rw [List.length_cons, List.length_cons, hlength]
      · rw [List.map_cons, List.zip_cons_cons, hpairs, List.map_cons, hsource, htarget]
      · rw [hhops, List.mapM_cons, hfind, hedges]
        rfl
      · rw [hhops, List.foldl_cons, hfind]
        have hhop : calculateOutput amount (r.edge g).reserveIn (r.edge g).reserveOut
            (r.edge g).feeBps = g.output amount := calculateOutput_eq (hsound _ hg) hamount
        dsimp only
        rw [hhop, houtput _ (Hop.output_pos (hsound _ hg) hamount)]
        rfl

/-- **The route of a path** and an amount. -/
theorem Graph.constructRoute_spec (h : r.Graph pools) [IsStrictOrderedRing K]
    (hsound : ∀ pool ∈ pools, pool.Sound) {x y : String} (hx : r.Knows x) {P : List (Hop K)}
    (hwalk : IsWalk Hop.source Hop.target (hopsOver pools) x P y) (hne : P ≠ []) {amount : K}
    (hamount : 0 < amount) :
    ∃ route, r.constructRoute ((x :: P.map Hop.target).map r.node) amount = some route ∧
      route.tokens = x :: P.map Hop.target ∧ route.Executes pools amount := by
  obtain ⟨gs, hgs, hlength, hpairs, hedges, houtput⟩ := h.exists_first hsound hwalk
  have hknown : ∀ t ∈ x :: P.map Hop.target, r.Knows t := by
    refine List.forall_mem_cons.mpr ⟨hx, fun t ht => ?_⟩
    obtain ⟨hop, hhop, rfl⟩ := List.mem_map.mp ht
    exact h.known_target (hwalk.subset hhop)
  have hlong : ¬ ((x :: P.map Hop.target).map r.node).length < 2 := by
    rw [List.length_map, List.length_cons, List.length_map]
    have hpos := List.length_pos_iff.mpr hne
    omega
  unfold constructRoute
  rw [if_neg hlong, mapM_nodeToToken h.numbered hknown, Option.bind_some, hedges, Option.map_some]
  refine ⟨_, rfl, rfl, rfl, gs, hgs, ?_, hpairs, ?_, ?_, houtput amount hamount⟩
  · rw [List.length_cons, List.length_map, hlength]
  · exact List.map_map
  · exact List.map_map

end Construct

/-! ## Searching for paths -/

section Search

variable {r : SmartOrderRouter K} {pools : List (LiquidityPool K)}

/-- The routes of some paths that go on from the nodes of `path`. -/
def routesOf (r : SmartOrderRouter K) (path : List String) (amount : K)
    (Ps : List (List (Hop K))) : List (SwapRoute K) :=
  Ps.filterMap fun P =>
    r.constructRoute ((path ++ P.map Hop.target).map r.node) (outputThrough P amount)

/-- Routes that go on over a hop go on from its target. -/
theorem routesOf_map_cons (path : List String) (amount : K) (h : Hop K)
    (Ps : List (List (Hop K))) :
    r.routesOf path amount (Ps.map fun P => h :: P) =
      r.routesOf (path ++ [h.target]) (h.output amount) Ps := by
  unfold routesOf
  rw [List.filterMap_map]
  refine List.filterMap_congr fun P _ => ?_
  rw [Function.comp_apply, List.map_cons, List.append_cons path h.target]
  rfl

/-- The search at the target. -/
theorem findPathsRecursive_goal {limit : Nat} (hlimit : limit < maxHops) {x : String}
    {path : List String} {amount : K} {visited : List TokenNode} {routes : List (SwapRoute K)} :
    r.findPathsRecursive (r.node x) (limit + 1) (r.node x) amount (path.map r.node) visited
        routes = routes ++ r.routesOf (path ++ [x]) amount [[]] := by
  have hcount : maxHops - limit ≥ 1 := Nat.sub_pos_of_lt hlimit
  have hnodes : (path ++ [x] ++ ([] : List (Hop K)).map Hop.target).map r.node =
      path.map r.node ++ [r.node x] := by
    rw [List.map_nil, List.append_nil, List.map_append]
    rfl
  unfold findPathsRecursive routesOf
  dsimp only
  rw [if_pos ⟨rfl, hcount⟩, List.filterMap_cons, hnodes]
  have hamount : outputThrough ([] : List (Hop K)) amount = amount := rfl
  rw [hamount]
  cases r.constructRoute (path.map r.node ++ [r.node x]) amount with
  | none => exact (List.append_nil routes).symm
  | some route => rfl

/-- The search elsewhere: one edge after the other. -/
theorem findPathsRecursive_explore {limit : Nat} {current target : TokenNode}
    (hnot : ¬ (current = target ∧ maxHops - limit ≥ 1)) (hless : maxHops - limit < maxHops)
    {path visited : List TokenNode} {amount : K} {routes : List (SwapRoute K)} :
    r.findPathsRecursive target (limit + 1) current amount path visited routes =
      ((r.adjacency.lookup current).getD []).foldl (fun routes edge =>
        if edge.toToken ∉ current :: visited then
          let output := calculateOutput amount edge.reserveIn edge.reserveOut edge.feeBps
          if output > 0 then
            r.findPathsRecursive target limit edge.toToken output (path ++ [current])
              (current :: visited) routes
          else routes
        else routes) routes := by
  conv_lhs => unfold findPathsRecursive
  dsimp only
  rw [if_neg hnot, if_pos hless]
  cases r.adjacency.lookup current <;> rfl

variable [IsStrictOrderedRing K]

/-- **A step of the search**: the routes over each edge of the node, in turn. -/
theorem Graph.foldl_edges (h : r.Graph pools) (hsound : ∀ pool ∈ pools, pool.Sound)
    (find : TokenNode → K → List (SwapRoute K) → List (SwapRoute K))
    (next : String → List (List (Hop K))) (path : List String) {x : String}
    {visited : List String} {amount : K} (hx : r.Knows x) (hvisited : ∀ t ∈ visited, r.Knows t)
    (hamount : 0 < amount)
    (hfind : ∀ hop ∈ hopsOver pools, hop.target ∉ x :: visited → ∀ routes,
      find (r.node hop.target) (hop.output amount) routes =
        routes ++ r.routesOf (path ++ [hop.target]) (hop.output amount) (next hop.target))
    (routes : List (SwapRoute K)) :
    ((r.adjacency.lookup (r.node x)).getD []).foldl (fun routes edge =>
        if edge.toToken ∉ (x :: visited).map r.node then
          let output := calculateOutput amount edge.reserveIn edge.reserveOut edge.feeBps
          if output > 0 then find edge.toToken output routes else routes
        else routes) routes =
      routes ++ r.routesOf path amount
        (explore Hop.source Hop.target (hopsOver pools) next x visited) := by
  rw [h.edges_of_known hx, List.foldl_map, explore]
  have hall : ∀ hop ∈ (hopsOver pools).filter fun h => h.source = x, hop ∈ hopsOver pools :=
    fun hop hmem => List.mem_of_mem_filter hmem
  generalize (hopsOver pools).filter (fun h => h.source = x) = edges at hall ⊢
  induction edges generalizing routes with
  | nil => exact (List.append_nil routes).symm
  | cons hop edges ih =>
      rw [List.forall_mem_cons] at hall
      have hknown : ∀ t ∈ x :: visited, r.Knows t := List.forall_mem_cons.mpr ⟨hx, hvisited⟩
      have hmem : (r.edge hop).toToken ∈ (x :: visited).map r.node ↔
          hop.target ∈ x :: visited := by
        rw [List.mem_map]
        constructor
        · rintro ⟨t, ht, heq⟩
          rwa [← (h.node_inj (hknown t ht) (h.known_target hall.1)).mp heq]
        · exact fun ht => ⟨hop.target, ht, rfl⟩
      have hpool : hop.pool.Sound := hsound _ (mem_hopsOver.mp hall.1)
      have houtput : calculateOutput amount (r.edge hop).reserveIn (r.edge hop).reserveOut
          (r.edge hop).feeBps = hop.output amount := calculateOutput_eq hpool hamount
      rw [List.foldl_cons, List.flatMap_cons, houtput]
      -- tokens and nodes correspond: the search skips a node when its token was visited
      by_cases hseen : hop.target ∈ x :: visited
      · rw [if_neg (not_not.mpr (hmem.mpr hseen)), if_pos hseen, List.nil_append]
        exact ih routes hall.2
      · rw [if_pos (hmem.not.mpr hseen), if_neg hseen]
        dsimp only
        have hto : (r.edge hop).toToken = r.node hop.target := rfl
        rw [if_pos (Hop.output_pos hpool hamount), hto, hfind hop hall.1 hseen, ih _ hall.2,
          List.append_assoc]
        refine congrArg (routes ++ ·) ?_
        rw [← routesOf_map_cons]
        exact (List.filterMap_append).symm

/-- **The search behind the first hop**: a route for every path to the target. -/
theorem Graph.findPathsRecursive_eq (h : r.Graph pools) (hsound : ∀ pool ∈ pools, pool.Sound)
    {y : String} (hy : r.Knows y) {limit : Nat} (hlimit : limit < maxHops) {x : String}
    {visited path : List String} {amount : K} (hx : r.Knows x)
    (hvisited : ∀ t ∈ visited, r.Knows t) (hamount : 0 < amount) (routes : List (SwapRoute K)) :
    r.findPathsRecursive (r.node y) (limit + 1) (r.node x) amount (path.map r.node)
        (visited.map r.node) routes =
      routes ++ r.routesOf (path ++ [x]) amount
        (paths Hop.source Hop.target (hopsOver pools) y limit x visited) := by
  induction limit generalizing x visited path amount routes with
  | zero =>
      unfold paths
      by_cases hxy : x = y
      · subst hxy
        rw [findPathsRecursive_goal hlimit, if_pos rfl]
      · have hstop : ¬ maxHops - 0 < maxHops := Nat.lt_irrefl _
        unfold findPathsRecursive
        dsimp only
        rw [if_neg fun hboth => hxy ((h.node_inj hx hy).mp hboth.1), if_neg hxy, if_neg hstop]
        exact (List.append_nil routes).symm
  | succ limit ih =>
      unfold paths
      by_cases hxy : x = y
      · subst hxy
        rw [findPathsRecursive_goal hlimit, if_pos rfl]
      · have hnot : ¬ (r.node x = r.node y ∧ maxHops - (limit + 1) ≥ 1) :=
          fun hboth => hxy ((h.node_inj hx hy).mp hboth.1)
        have hless : maxHops - (limit + 1) < maxHops :=
          Nat.sub_lt_self (Nat.succ_pos limit) hlimit.le
        rw [findPathsRecursive_explore hnot hless, if_neg hxy]
        have hknown : ∀ t ∈ x :: visited, r.Knows t := List.forall_mem_cons.mpr ⟨hx, hvisited⟩
        have hpath : path.map r.node ++ [r.node x] = (path ++ [x]).map r.node := by
          rw [List.map_append]
          rfl
        rw [hpath]
        exact h.foldl_edges hsound
          (fun node amount routes => r.findPathsRecursive (r.node y) (limit + 1) node amount
            ((path ++ [x]).map r.node) ((x :: visited).map r.node) routes)
          (fun v => paths Hop.source Hop.target (hopsOver pools) y limit v (x :: visited))
          (path ++ [x]) hx hvisited hamount
          (fun hop hhop _ routes => ih (Nat.lt_of_succ_lt hlimit) (h.known_target hhop) hknown
            (Hop.output_pos (hsound _ (mem_hopsOver.mp hhop)) hamount) routes) routes

/-- The paths that are searched between two tokens. -/
def pathsBetween (pools : List (LiquidityPool K)) (x y : String) : List (List (Hop K)) :=
  explore Hop.source Hop.target (hopsOver pools)
    (fun v => paths Hop.source Hop.target (hopsOver pools) y (maxHops - 1) v [x]) x []

/-- **The search from a token**: a route for every path to another. -/
theorem Graph.findPaths_eq (h : r.Graph pools) (hsound : ∀ pool ∈ pools, pool.Sound)
    {x y : String} (hx : r.Knows x) (hy : r.Knows y) {amount : K} (hamount : 0 < amount) :
    r.findPathsRecursive (r.node y) (maxHops + 1) (r.node x) amount [] [] [] =
      r.routesOf [x] amount (pathsBetween pools x y) := by
  have hnot : ¬ (r.node x = r.node y ∧ maxHops - maxHops ≥ 1) := fun hboth =>
    absurd hboth.2 (by decide)
  rw [findPathsRecursive_explore hnot (by decide)]
  have hknown : ∀ t ∈ [x], r.Knows t := List.forall_mem_singleton.mpr hx
  have hlimit : maxHops - 1 < maxHops := by decide
  exact h.foldl_edges hsound
    (fun node amount routes => r.findPathsRecursive (r.node y) maxHops node amount
      ([x].map r.node) ([x].map r.node) routes)
    (fun v => paths Hop.source Hop.target (hopsOver pools) y (maxHops - 1) v [x])
    [x] hx (fun t ht => absurd ht List.not_mem_nil) hamount
    (fun hop hhop _ routes => h.findPathsRecursive_eq hsound hy hlimit (h.known_target hhop) hknown
      (Hop.output_pos (hsound _ (mem_hopsOver.mp hhop)) hamount) routes) []

end Search

/-! ## All routes -/

/-- Where nothing is dropped, `filterMap` is a `map`. -/
theorem map_some_filterMap {A B : Type u} {f : A → Option B} {l : List A}
    (h : ∀ a ∈ l, ∃ b, f a = some b) : (l.filterMap f).map some = l.map f := by
  induction l with
  | nil => rfl
  | cons a l ih =>
      rw [List.forall_mem_cons] at h
      obtain ⟨⟨b, hb⟩, hrest⟩ := h
      rw [List.filterMap_cons_some hb, List.map_cons, List.map_cons, hb, ih hrest]

section Routes

variable {r : SmartOrderRouter K} {pools : List (LiquidityPool K)} [IsStrictOrderedRing K]

omit [Field K] [LinearOrder K] [IsStrictOrderedRing K] in
/-- The paths that are listed are those that are searched. -/
theorem mem_pathsBetween {x y : String} {P : List (Hop K)} :
    P ∈ pathsBetween pools x y ↔ Searched pools x y P := by
  rw [pathsBetween, mem_explore_paths]
  exact ⟨fun ⟨hpath, hne, hle⟩ => ⟨hpath, hne, hle⟩,
    fun hsearched => ⟨hsearched.path, hsearched.ne_nil, hsearched.length_le⟩⟩

omit [Field K] [LinearOrder K] [IsStrictOrderedRing K] in
/-- Two paths have the same tokens unless there is one pool only for each hop. -/
theorem nodup_pathsBetween_iff {x y : String} :
    ((pathsBetween pools x y).map (List.map Hop.target)).Nodup ↔
      ∀ P, Searched pools x y P → ∀ hop ∈ P,
        multiplicity Hop.source Hop.target (hopsOver pools) hop = 1 := by
  rw [pathsBetween, nodup_nodes_iff]
  exact ⟨fun hall P hP => hall P hP.path hP.ne_nil hP.length_le,
    fun hall P hpath hne hle => hall P ⟨hpath, hne, hle⟩⟩

variable {x y : String} {amount : K}

/-- The route that is constructed for a path. -/
theorem Graph.constructRoute_between (h : r.Graph pools) (hsound : ∀ pool ∈ pools, pool.Sound)
    (hx : r.Knows x) (hamount : 0 < amount) {P : List (Hop K)} (hP : P ∈ pathsBetween pools x y) :
    ∃ route, r.constructRoute (([x] ++ P.map Hop.target).map r.node) (outputThrough P amount) =
        some route ∧
      route.tokens = x :: P.map Hop.target ∧ route.Executes pools (outputThrough P amount) := by
  have hsearched := mem_pathsBetween.mp hP
  have hpools : ∀ hop ∈ P, hop.pool.Sound := fun hop hhop =>
    hsound _ (mem_hopsOver.mp (hsearched.path.walk.subset hhop))
  exact h.constructRoute_spec hsound hx hsearched.path.walk hsearched.ne_nil
    (outputThrough_pos hpools hamount)

/-- **A route for every path**, and each is the one that is constructed for it. -/
theorem Graph.routesOf_eq (h : r.Graph pools) (hsound : ∀ pool ∈ pools, pool.Sound)
    (hx : r.Knows x) (hamount : 0 < amount) :
    (r.routesOf [x] amount (pathsBetween pools x y)).map some =
      (pathsBetween pools x y).map fun P =>
        r.constructRoute (([x] ++ P.map Hop.target).map r.node) (outputThrough P amount) :=
  map_some_filterMap fun P hP => by
    obtain ⟨route, hconstruct, -⟩ := h.constructRoute_between hsound hx hamount hP
    exact ⟨route, hconstruct⟩

/-- **When the routes that are found execute what they quote.** -/
theorem Graph.quotesSoundly_iff (h : r.Graph pools) (hsound : ∀ pool ∈ pools, pool.Sound)
    (hx : r.Knows x) (hy : r.Knows y) (hamount : 0 < amount) :
    QuotesSoundly pools amount
        (r.findPathsRecursive (r.node y) (maxHops + 1) (r.node x) amount [] [] []) ↔
      GivesBack pools x y amount := by
  rw [h.findPaths_eq hsound hx hy hamount]
  have hsome := h.routesOf_eq (y := y) hsound hx hamount
  constructor
  · rintro ⟨hexecutes, hnodup⟩
    have hsame : ∀ P ∈ pathsBetween pools x y, outputThrough P amount = amount := fun P hP => by
      obtain ⟨route, hconstruct, -, hquotes⟩ := h.constructRoute_between hsound hx hamount hP
      have hmem : route ∈ r.routesOf [x] amount (pathsBetween pools x y) :=
        List.mem_filterMap.mpr ⟨P, hP, hconstruct⟩
      exact hquotes.amountIn_eq.symm.trans (hexecutes route hmem).amountIn_eq
    refine ⟨fun P hP => hsame P (mem_pathsBetween.mpr hP), nodup_pathsBetween_iff.mp ?_⟩
    -- a route depends on the tokens of its path only
    have hby : (r.routesOf [x] amount (pathsBetween pools x y)).map some =
        ((pathsBetween pools x y).map (List.map Hop.target)).map
          fun path => r.constructRoute (([x] ++ path).map r.node) amount := by
      rw [hsome, List.map_map]
      exact List.map_congr_left fun P hP => by rw [hsame P hP]; rfl
    have hmapped := hnodup.map (Option.some_injective _)
    rw [hby] at hmapped
    exact List.Nodup.of_map _ hmapped
  · rintro ⟨hsame, hsole⟩
    refine ⟨fun route hmem => ?_, ?_⟩
    · obtain ⟨P, hP, hconstruct⟩ := List.mem_filterMap.mp hmem
      obtain ⟨route', hconstruct', -, hquotes⟩ := h.constructRoute_between hsound hx hamount hP
      obtain rfl := Option.some.inj (hconstruct.symm.trans hconstruct')
      rwa [hsame P (mem_pathsBetween.mp hP)] at hquotes
    · -- the tokens of a route are those of its path
      have hby : (r.routesOf [x] amount (pathsBetween pools x y)).map
            (fun route => some route.tokens) =
          ((pathsBetween pools x y).map (List.map Hop.target)).map
            fun path => some (x :: path) := by
        have hmap := congrArg (List.map (Option.map SwapRoute.tokens)) hsome
        rw [List.map_map, List.map_map] at hmap
        rw [List.map_map]
        refine hmap.trans (List.map_congr_left fun P hP => ?_)
        obtain ⟨route, hconstruct, htokens, -⟩ := h.constructRoute_between hsound hx hamount hP
        rw [Function.comp_apply, hconstruct, Option.map_some, htokens]
        rfl
      have hinjective : Function.Injective fun path : List String => some (x :: path) :=
        (Option.some_injective _).comp (List.cons_injective)
      have hmapped := (nodup_pathsBetween_iff.mpr hsole).map hinjective
      rw [← hby] at hmapped
      exact List.Nodup.of_map _ hmapped

omit [LinearOrder K] [IsStrictOrderedRing K] in
/-- The order of the routes does not matter. -/
theorem quotesSoundly_perm {amount : K} {routes routes' : List (SwapRoute K)}
    (h : routes.Perm routes') :
    QuotesSoundly pools amount routes ↔ QuotesSoundly pools amount routes' :=
  ⟨fun hq => ⟨fun route hroute => hq.executes route (h.mem_iff.mpr hroute),
      h.nodup_iff.mp hq.nodup⟩,
    fun hq => ⟨fun route hroute => hq.executes route (h.mem_iff.mp hroute),
      h.nodup_iff.mpr hq.nodup⟩⟩

omit [LinearOrder K] [IsStrictOrderedRing K] in
/-- Where there is no route, nothing is quoted. -/
theorem quotesSoundly_nil (amount : K) : QuotesSoundly pools amount [] :=
  ⟨fun _ hroute => absurd hroute List.not_mem_nil, List.nodup_nil⟩

omit [IsStrictOrderedRing K] in
/-- The ends of a path are known. -/
theorem Graph.knows_of_searched (h : r.Graph pools) {x y : String} {P : List (Hop K)}
    (hP : Searched pools x y P) : r.Knows x ∧ r.Knows y := by
  obtain ⟨hop, P', rfl⟩ := List.exists_cons_of_ne_nil hP.ne_nil
  obtain ⟨last, hlast, rfl⟩ := List.mem_map.mp (hP.path.walk.end_mem hP.ne_nil)
  refine ⟨?_, h.known_target (hP.path.walk.subset hlast)⟩
  obtain ⟨hmem, rfl, -⟩ := hP.path.walk
  exact h.known hop hmem

/-- **When `find_best_route` quotes what it executes**: exactly where every path gives back the
amount that is put in, over the only pools between its tokens. -/
theorem findBestRoute_quotesSoundly_iff {r₀ : SmartOrderRouter K} (hbefore : Built r₀)
    (hbuild : r₀.buildGraph pools = some r) (hsound : ∀ pool ∈ pools, pool.Sound) (ln exp : K → K)
    {order : Nat → List (Adjacent K)} (horder : ∀ i, (order i).Perm r.adjacency.entries)
    (tokenIn tokenOut : String) {amount : K} (hamount : 0 < amount) :
    ∃ result, r.findBestRoute ln exp order tokenIn tokenOut amount = some result ∧
      (QuotesSoundly pools amount result.routes ↔ GivesBack pools tokenIn tokenOut amount) := by
  have hgraph := graph_of_buildGraph hbefore.numbered hbuild
  have hunknown : ¬ (r.Knows tokenIn ∧ r.Knows tokenOut) →
      (QuotesSoundly pools amount [] ↔ GivesBack pools tokenIn tokenOut amount) := fun hnot =>
    iff_of_true (quotesSoundly_nil amount)
      ⟨fun P hP => absurd (hgraph.knows_of_searched hP) hnot,
        fun P hP => absurd (hgraph.knows_of_searched hP) hnot⟩
  unfold findBestRoute
  cases hin : r.tokenToNode.lookup tokenIn with
  | none => exact ⟨emptyResult, rfl, hunknown fun hboth => by
      rw [Knows, hin] at hboth
      cases hboth.1⟩
  | some fromNode =>
      cases hout : r.tokenToNode.lookup tokenOut with
      | none => exact ⟨emptyResult, rfl, hunknown fun hboth => by
          rw [Knows, Knows, hout] at hboth
          cases hboth.2⟩
      | some toNode =>
          obtain rfl := node_eq hin
          obtain rfl := node_eq hout
          have hiff := hgraph.quotesSoundly_iff hsound hin hout hamount
          dsimp only
          split
          · rename_i hnone
            rw [hnone] at hiff
            exact ⟨emptyResult, rfl, hiff⟩
          · obtain ⟨dist, profit, -, -, hdetect⟩ :=
              hgraph.detectArbitrage_eq hin ln exp horder
            rw [hdetect]
            exact ⟨_, rfl, (quotesSoundly_perm (List.perm_insertionSort _ _)).trans hiff⟩

end Routes

/-- There is as much of the one token as of the other. -/
theorem sound_evenPool : ∀ pool ∈ [evenPool], pool.Sound :=
  List.forall_mem_singleton.mpr ⟨by decide +kernel, by decide +kernel, by decide⟩

/-- Both pools have what the theorem asks for. -/
theorem sound_twoPrices : ∀ pool ∈ twoPrices, pool.Sound := by
  intro pool hpool
  rcases List.mem_cons.mp hpool with rfl | hpool
  · exact sound_evenPool _ (List.mem_singleton_self _)
  · rw [List.mem_singleton.mp hpool]
    exact ⟨by decide +kernel, by decide +kernel, by decide⟩

/-- Two pools of one pair at different prices: each is found, and with what came out of it as the
amount put in. -/
theorem findBestRoute_quotesSoundly_iff_twoPrices :
    ∃ r : SmartOrderRouter ℚ, new.buildGraph twoPrices = some r ∧
      ∃ result, r.findBestRoute logOfPrice priceOfLog (fun _ => r.adjacency.entries)
          "ETH" "WETH" 100 = some result ∧
        result.routes.map (·.amountIn) = [1994000 / 10997, 997000 / 10997] ∧
        (QuotesSoundly twoPrices 100 result.routes ↔ GivesBack twoPrices "ETH" "WETH" 100) := by
  have hquoted : ((new : SmartOrderRouter ℚ).buildGraph twoPrices).bind (fun r =>
      (r.findBestRoute logOfPrice priceOfLog (fun _ => r.adjacency.entries) "ETH" "WETH" 100).map
        fun result => result.routes.map (·.amountIn)) = some [1994000 / 10997, 997000 / 10997] := by
    decide +kernel
  obtain ⟨r, hbuild, hamounts⟩ := Option.bind_eq_some_iff.mp hquoted
  obtain ⟨result, hrun, hiff⟩ := findBestRoute_quotesSoundly_iff Built.new hbuild sound_twoPrices
    logOfPrice priceOfLog (fun _ => List.Perm.refl r.adjacency.entries) "ETH" "WETH"
    (show (0 : ℚ) < 100 by decide +kernel)
  rw [hrun, Option.map_some] at hamounts
  exact ⟨r, hbuild, result, hrun, Option.some.inj hamounts, hiff⟩

/-- **A route quotes the amount that came out as the amount that was put in.** -/
theorem not_forall_quotesSoundly :
    ¬ ∀ (r₀ r : SmartOrderRouter ℚ) (pools : List (LiquidityPool ℚ)) (ln exp : ℚ → ℚ)
        (order : Nat → List (Adjacent ℚ)) (tokenIn tokenOut : String) (amount : ℚ),
      Built r₀ → r₀.buildGraph pools = some r → (∀ pool ∈ pools, pool.Sound) →
      (∀ i, (order i).Perm r.adjacency.entries) → 0 < amount →
      ∃ result, r.findBestRoute ln exp order tokenIn tokenOut amount = some result ∧
        QuotesSoundly pools amount result.routes := by
  intro h
  have hquoted : ((new : SmartOrderRouter ℚ).buildGraph [evenPool]).bind (fun r =>
      (r.findBestRoute (fun x => x - 1) (fun x => x + 1) (fun _ => r.adjacency.entries) "ETH" "WETH"
        100).map fun result => result.routes.map (·.amountIn)) = some [997000 / 10997] := by
    decide +kernel
  obtain ⟨r, hbuild, hresult⟩ := Option.bind_eq_some_iff.mp hquoted
  obtain ⟨result, hrun, hsound⟩ := h new r [evenPool] (fun x => x - 1) (fun x => x + 1)
    (fun _ => r.adjacency.entries) "ETH" "WETH" 100 .new hbuild sound_evenPool
    (fun _ => List.Perm.refl _) (by decide +kernel)
  rw [hrun, Option.map_some] at hresult
  have hamounts := Option.some.inj hresult
  have hmem : (997000 / 10997 : ℚ) ∈ result.routes.map (·.amountIn) := by
    rw [hamounts]
    exact List.mem_singleton_self _
  obtain ⟨route, hroute, hin⟩ := List.mem_map.mp hmem
  rw [(hsound.executes route hroute).amountIn_eq] at hin
  exact absurd hin (by norm_num)

end SmartOrderRouter

end StopTrading.Dex
