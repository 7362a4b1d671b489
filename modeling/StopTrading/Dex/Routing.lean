import Mathlib

/-!
# The graph of the pools

`SmartOrderRouter` of `dex/routing.rs`.  A token is a node, and a pool is two edges, one for each
direction.  `build_graph` keeps the nodes of earlier calls and builds the edges anew.

* `findBestRoute` — a depth-first search over at most `MAX_HOPS` edges, which gives every path of
  nodes that it finds to `construct_route`, and the routes in the order of their outputs.
* `detectArbitrage` — Bellman-Ford over the logarithms of the prices.

Numbers are those of an ordered field; the logarithm and the exponential are parameters, and so is
the order in which the map of the edges is iterated.

### Design decisions

Everything that can abort is an `Option`: the counter of nodes is a `u32` and checked, and the
distances are an array that is indexed.  That the index is always in bounds is proved
(`detectArbitrage_spec`), and not assumed by an array without bounds.

An infinite distance is `⊤`, and stays infinite whatever is added to it.

The search keeps a path and a set of visited nodes, which it changes and changes back.  Here both
are arguments, so that what a call leaves behind need not be said.
-/

namespace StopTrading.Dex

universe u

variable {K : Type u}

/-- `MAX_HOPS`. -/
def maxHops : Nat := 4

/-- `DexVenue`. -/
inductive DexVenue where
  | uniswapV3 | uniswapV2 | raydium | orca | jupiter | curve | balancer
  deriving Repr, DecidableEq

/-- `LiquidityPool`; what routing does not read is left out. -/
structure LiquidityPool (K : Type u) where
  venue : DexVenue
  poolId : String
  tokenA : String
  tokenB : String
  feeTierBps : Nat
  reserveA : K
  reserveB : K
  price : K

/-- `TokenNode`. -/
structure TokenNode where
  id : Nat
  deriving Repr, DecidableEq

/-- `PoolEdge`. -/
structure PoolEdge (K : Type u) where
  fromToken : TokenNode
  toToken : TokenNode
  poolId : String
  venue : DexVenue
  feeBps : K
  reserveIn : K
  reserveOut : K
  price : K

/-- `SwapRoute`. -/
structure SwapRoute (K : Type u) where
  tokens : List String
  pools : List String
  venues : List DexVenue
  amountIn : K
  amountOut : K
  priceImpactBps : K
  totalFeesBps : K
  gasEstimate : Nat

/-- `PathResult`; a profit may be infinite. -/
structure PathResult (K : Type u) where
  routes : List (SwapRoute K)
  bestRouteIndex : Option Nat
  arbitrageDetected : Bool
  arbitrageProfitBps : WithTop K

/-- `SmartOrderRouter`, without the buffers that nothing reads. -/
structure SmartOrderRouter (K : Type u) where
  tokenToNode : AList fun _ : String => TokenNode
  nodeToToken : AList fun _ : TokenNode => String
  adjacency : AList fun _ : TokenNode => List (PoolEdge K)
  nextNodeId : Nat

/-- A node with its edges, as the iteration over the map yields it. -/
abbrev Adjacent (K : Type u) := Sigma fun _ : TokenNode => List (PoolEdge K)

namespace SmartOrderRouter

/-- `SmartOrderRouter::new`. -/
def new : SmartOrderRouter K := ⟨∅, ∅, ∅, 0⟩

/-- `get_or_create_node`.  It is `none` where the counter, a `u32`, overflows. -/
def getOrCreateNode (r : SmartOrderRouter K) (token : String) :
    Option (TokenNode × SmartOrderRouter K) :=
  match r.tokenToNode.lookup token with
  | some node => some (node, r)
  | none =>
      if r.nextNodeId + 1 < 2 ^ 32 then
        let node : TokenNode := ⟨r.nextNodeId⟩
        some (node, { r with
          nextNodeId := r.nextNodeId + 1
          tokenToNode := r.tokenToNode.insert token node
          nodeToToken := r.nodeToToken.insert node token })
      else none

/-- `self.adjacency.entry(node).or_default().push(edge)`. -/
def pushEdge (r : SmartOrderRouter K) (node : TokenNode) (edge : PoolEdge K) :
    SmartOrderRouter K :=
  { r with
    adjacency := r.adjacency.insert node ((r.adjacency.lookup node).getD [] ++ [edge]) }

variable [Field K] [LinearOrder K]

/-- The price on the way back. -/
def reversePrice (pool : LiquidityPool K) : K := 1 / max pool.price (1 / 10 ^ 10)

/-- The loop body of `build_graph`. -/
def addPool (r : SmartOrderRouter K) (pool : LiquidityPool K) : Option (SmartOrderRouter K) :=
  (r.getOrCreateNode pool.tokenA).bind fun (fromNode, r) =>
    (r.getOrCreateNode pool.tokenB).bind fun (toNode, r) =>
      let edgeAb : PoolEdge K :=
        { fromToken := fromNode
          toToken := toNode
          poolId := pool.poolId
          venue := pool.venue
          feeBps := pool.feeTierBps
          reserveIn := pool.reserveA
          reserveOut := pool.reserveB
          price := pool.price }
      let edgeBa : PoolEdge K :=
        { fromToken := toNode
          toToken := fromNode
          poolId := pool.poolId
          venue := pool.venue
          feeBps := pool.feeTierBps
          reserveIn := pool.reserveB
          reserveOut := pool.reserveA
          price := reversePrice pool }
      some ((r.pushEdge fromNode edgeAb).pushEdge toNode edgeBa)

/-- **`build_graph`**. -/
def buildGraph (r : SmartOrderRouter K) (pools : List (LiquidityPool K)) :
    Option (SmartOrderRouter K) :=
  pools.foldlM addPool { r with adjacency := ∅ }

/-- A router whose graph was built any number of times. -/
inductive Built : SmartOrderRouter K → Prop where
  | new : Built new
  | buildGraph {r r' : SmartOrderRouter K} {pools : List (LiquidityPool K)} (before : Built r)
      (built : r.buildGraph pools = some r') : Built r'

/-! ## Routes -/

/-- `fee_multiplier`, of `calculate_output` and of `get_amount_out`. -/
def feeMultiplier (feeBps : K) : K := 1 - feeBps / 10000

/-- `calculate_output`, for a single hop. -/
def calculateOutput (amountIn reserveIn reserveOut feeBps : K) : K :=
  let numerator := amountIn * reserveOut * feeMultiplier feeBps
  let denominator := reserveIn + amountIn * feeMultiplier feeBps
  if denominator > 0 then numerator / denominator else 0

/-- The first edge between two nodes. -/
def findEdge (r : SmartOrderRouter K) (fromNode toNode : TokenNode) : Option (PoolEdge K) :=
  (r.adjacency.lookup fromNode).bind fun edges => edges.find? fun e => e.toToken = toNode

/-- The pairs of consecutive nodes of a path. -/
def hops (path : List TokenNode) : List (TokenNode × TokenNode) := path.zip path.tail

/-- `construct_route`. -/
def constructRoute (r : SmartOrderRouter K) (path : List TokenNode) (amountIn : K) :
    Option (SwapRoute K) :=
  if path.length < 2 then none
  else
    (path.mapM fun node => r.nodeToToken.lookup node).bind fun tokens =>
      ((hops path).mapM fun hop => r.findEdge hop.1 hop.2).map fun edges =>
        { tokens := tokens
          pools := edges.map (·.poolId)
          venues := edges.map (·.venue)
          amountIn := amountIn
          amountOut := (hops path).foldl (fun amount hop =>
            match r.findEdge hop.1 hop.2 with
            | some e => calculateOutput amount e.reserveIn e.reserveOut e.feeBps
            | none => amount) amountIn
          priceImpactBps := 0
          totalFeesBps := (edges.map (·.feeBps)).sum
          gasEstimate := 150000 * edges.length }

/-- `find_paths_recursive` with `hopsLeft` for `MAX_HOPS + 1 - hop_count`.  A call leaves the path
and the visited nodes as it has found them; the return at `MAX_PATHS_PER_DEST` leaves one call
only, at its end. -/
def findPathsRecursive (r : SmartOrderRouter K) (target : TokenNode) :
    (hopsLeft : Nat) → (current : TokenNode) → (currentAmount : K) →
    (path visited : List TokenNode) → (routes : List (SwapRoute K)) → List (SwapRoute K)
  | 0, _, _, _, _, routes => routes
  | hopsLeft + 1, current, currentAmount, path, visited, routes =>
      let hopCount := maxHops - hopsLeft
      let path := path ++ [current]
      let visited := current :: visited
      if current = target ∧ hopCount ≥ 1 then
        match r.constructRoute path currentAmount with
        | some route => routes ++ [route]
        | none => routes
      else if hopCount < maxHops then
        match r.adjacency.lookup current with
        | some edges =>
            edges.foldl (fun routes edge =>
              if edge.toToken ∉ visited then
                let output := calculateOutput currentAmount edge.reserveIn edge.reserveOut
                  edge.feeBps
                if output > 0 then
                  r.findPathsRecursive target hopsLeft edge.toToken output path visited routes
                else routes
              else routes) routes
        | none => routes
      else routes

/-! ## Arbitrage -/

/-- `-(edge.price.ln())`. -/
def logPrice (ln : K → K) (edge : PoolEdge K) : K := -ln edge.price

/-- Relax an edge of `from`: the distances and whether one was updated.  An index that is out of
bounds is `none`. -/
def relaxEdge (ln : K → K) (fromNode : TokenNode) (s : List (WithTop K) × Bool)
    (edge : PoolEdge K) : Option (List (WithTop K) × Bool) :=
  s.1[fromNode.id]?.bind fun here =>
    let newDist := here + logPrice ln edge
    s.1[edge.toToken.id]?.bind fun there =>
      if newDist < there then some (s.1.set edge.toToken.id newDist, true) else some s

/-- Relax the edges of a node, if it has a distance. -/
def relaxNode (ln : K → K) (s : List (WithTop K) × Bool) (node : Adjacent K) :
    Option (List (WithTop K) × Bool) :=
  s.1[node.1.id]?.bind fun here =>
    if here = ⊤ then some s else node.2.foldlM (relaxEdge ln node.1) s

/-- The loop over the passes; `order n` is the order of the pass with `n` more to come. -/
def relaxEdges (ln : K → K) (order : Nat → List (Adjacent K)) :
    (passes : Nat) → (dist : List (WithTop K)) → Option (List (WithTop K))
  | 0, dist => some dist
  | passes + 1, dist =>
      ((order (passes + 1)).foldlM (relaxNode ln) (dist, false)).bind fun (dist, updated) =>
        if updated then relaxEdges ln order passes dist else some dist

/-- The profit over the first edge of `from` that still shortens a distance, if there is one. -/
def checkEdges (ln exp : K → K) (dist : List (WithTop K)) (fromNode : TokenNode) :
    (edges : List (PoolEdge K)) → Option (Option (WithTop K))
  | [] => some none
  | edge :: edges =>
      dist[fromNode.id]?.bind fun here =>
        let newDist := here + logPrice ln edge
        dist[edge.toToken.id]?.bind fun there =>
          if newDist < there - ((1 / 10 ^ 10 : K) : WithTop K) then
            let profitBps := (there - newDist).map fun x => (exp x - 1) * 10000
            some (some (max profitBps 0))
          else checkEdges ln exp dist fromNode edges

/-- The loop that checks for negative cycles. -/
def checkNodes (ln exp : K → K) (dist : List (WithTop K)) :
    (nodes : List (Adjacent K)) → Option (Option (WithTop K))
  | [] => some none
  | node :: nodes =>
      dist[node.1.id]?.bind fun here =>
        if here = ⊤ then checkNodes ln exp dist nodes
        else
          (checkEdges ln exp dist node.1 node.2).bind fun profit =>
            match profit with
            | some profit => some (some profit)
            | none => checkNodes ln exp dist nodes

/-- **`detect_arbitrage`**. -/
def detectArbitrage (r : SmartOrderRouter K) (ln exp : K → K) (order : Nat → List (Adjacent K))
    (startToken : String) : Option (Bool × WithTop K) :=
  match r.tokenToNode.lookup startToken with
  | none => some (false, 0)
  | some startNode =>
      let numNodes := r.nextNodeId
      if numNodes = 0 then some (false, 0)
      else if startNode.id < numNodes then
        let dist := (List.replicate numNodes ⊤).set startNode.id 0
        (relaxEdges ln order (numNodes - 1) dist).bind fun dist =>
          (checkNodes ln exp dist (order 0)).map fun profit =>
            match profit with
            | some profit => (true, profit)
            | none => (false, 0)
      else none

/-! ## The best route -/

/-- `empty_result`. -/
def emptyResult : PathResult K := ⟨[], none, false, 0⟩

/-- **`find_best_route`**. -/
def findBestRoute (r : SmartOrderRouter K) (ln exp : K → K) (order : Nat → List (Adjacent K))
    (tokenIn tokenOut : String) (amountIn : K) : Option (PathResult K) :=
  match r.tokenToNode.lookup tokenIn, r.tokenToNode.lookup tokenOut with
  | some fromNode, some toNode =>
      let routes := r.findPathsRecursive toNode (maxHops + 1) fromNode amountIn [] [] []
      if routes = [] then some emptyResult
      else
        let routes := routes.insertionSort fun a b => b.amountOut ≤ a.amountOut
        (r.detectArbitrage ln exp order tokenIn).map fun (detected, profit) =>
          { routes := routes
            bestRouteIndex := some 0
            arbitrageDetected := detected
            arbitrageProfitBps := profit }
  | _, _ => some emptyResult

end SmartOrderRouter

end StopTrading.Dex
