import Mathlib.Algebra.Order.Ring.Nat
import Mathlib.Data.List.Pairwise
import Mathlib.Tactic.Common
import Mathlib.Tactic.Push

/-!
# Routing an order with failover

`route_order_with_failover` submits an order to the venue with the best score and, as long
as the venues fail, to up to two more venues the failover policy names.  What a venue
answers is left open: it depends on the attempt and on the venue.

The failed venue is not remembered: the failover is always asked for a venue other than
venue 0.  So a best venue with another number is asked again right after it has failed, and
the second failover names the same venue as the first one (`failover_eq_best`).
`noRepeat_iff_clear` says when no venue is asked again after a failure.

### What is load-bearing

Which venues a route asks does not depend on what they answer, only how far it gets.  `targets`
is the list of the at most three venues, computed from the load balancer alone, and
`submissions_routeLoop` says that the submissions are made to an initial part of it.  So the
question becomes whether a list repeats, as far as it is reached.

The repetition comes from a constant.  The failover is asked for a venue other than *venue 0*,
whatever has failed, and leaving out a venue that is not the best does not change which one is
best (`bestAmong_of_fewer`).  So by score the failover for a failed venue is that venue.

What a venue answers depends on the attempt, so that a venue may fail once and not twice.
`Clear` asks for no more than the answers that are given.
-/

namespace StopTrading.Gateway

/-! ## Orders and venues -/

/-- `VenueError`. -/
inductive VenueError where
  | notConnected
  | connectionFailed
  | authenticationFailed
  | rateLimited
  | invalidRequest
  | timeout
  | protocolError
  | insufficientBalance
  | orderRejected
  | symbolNotFound
  | internalError
  deriving Repr, DecidableEq

/-- `OrderRequest`, as far as the manager reads it. -/
structure OrderRequest where
  clientOrderId : Nat
  symbolHash : Nat
  deriving Repr, DecidableEq

/-- `OrderResponse`. -/
structure OrderResponse where
  orderId : Nat
  clientOrderId : Nat
  status : Nat
  avgFillPrice : Nat
  filledQty : Nat
  remainingQty : Nat
  timestampNs : Nat
  errorCode : Nat
  deriving Repr, DecidableEq

/-- `is_rejected`. -/
def OrderResponse.isRejected (r : OrderResponse) : Bool := r.status = 4 ∨ r.errorCode ≠ 0

/-- `OrderRoutingDecision`. -/
structure OrderRoutingDecision where
  venueId : Nat
  expectedLatencyNs : Nat
  availableLiquidity : Nat
  score : Nat
  isFailover : Bool
  deriving Repr, DecidableEq

namespace OrderRoutingDecision

/-- The part of a score that comes from the latency. -/
def latencyFactor (latencyNs : Nat) : Nat :=
  if latencyNs < 1000000 then 100
  else if latencyNs < 5000000 then 80
  else if latencyNs < 10000000 then 60
  else 40

/-- `new`. -/
def new (venueId expectedLatencyNs availableLiquidity : Nat) : OrderRoutingDecision where
  venueId := venueId
  expectedLatencyNs := expectedLatencyNs
  availableLiquidity := availableLiquidity
  score :=
    let liquidityScore :=
      if availableLiquidity > 1000000000 then 100
      else if availableLiquidity > 100000000 then 80
      else if availableLiquidity > 10000000 then 60
      else 40
    (latencyFactor expectedLatencyNs + liquidityScore) / 2
  isFailover := false

/-- `as_failover`. -/
def asFailover (d : OrderRoutingDecision) : OrderRoutingDecision :=
  { d with isFailover := true, score := d.score - 20 }

end OrderRoutingDecision

/-! ## The load balancer -/

/-- `FailoverPolicy`. -/
inductive FailoverPolicy where
  | immediate
  | delayed (delayMs : Nat)
  | strictPrimary
  | roundRobin
  deriving Repr, DecidableEq

/-- `MAX_VENUES`. -/
def maxVenues : Nat := 32

/-- `VenueStatus`, as far as a route depends on it. -/
structure VenueStatus where
  venueId : Nat
  isConnected : Bool
  latencyNs : Nat
  liquidityScore : Nat
  healthScore : Nat
  deriving Repr, DecidableEq

/-- The venue is connected and its health is at least 50. -/
def VenueStatus.isHealthy (v : VenueStatus) : Bool := v.isConnected ∧ v.healthScore ≥ 50

/-- `calculate_routing_score`. -/
def VenueStatus.calculateRoutingScore (v : VenueStatus) : Nat :=
  if v.isHealthy = false then 0
  else
    (OrderRoutingDecision.latencyFactor v.latencyNs * 3 + v.healthScore * 2 + v.liquidityScore)
      % 2 ^ 32 / 6

/-- The decision for a venue. -/
def VenueStatus.decision (v : VenueStatus) : OrderRoutingDecision :=
  .new v.venueId v.latencyNs v.liquidityScore

/-- `LoadBalancer`. -/
structure LoadBalancer where
  venueStatuses : Vector VenueStatus maxVenues
  activeCount : Nat
  rrIndex : Nat
  failoverPolicy : FailoverPolicy
  routingDecisions : Nat
  failoverCount : Nat

namespace LoadBalancer

/-- A round of the loops for the best venue: the score and the venue so far. -/
def takeBetter (usable : VenueStatus → Bool) (best : Nat × Option VenueStatus)
    (status : VenueStatus) : Nat × Option VenueStatus :=
  if usable status = false then best
  else if status.calculateRoutingScore > best.1 then (status.calculateRoutingScore, some status)
  else best

/-- The loops for the best venue among the usable ones. -/
def bestAmong (lb : LoadBalancer) (usable : VenueStatus → Bool) : Option VenueStatus :=
  (lb.venueStatuses.toList.foldl (takeBetter usable) (0, none)).2

/-- A venue that is not usable is passed over, -/
theorem takeBetter_of_skipped {usable : VenueStatus → Bool} {status : VenueStatus}
    (h : usable status = false) (best : Nat × Option VenueStatus) :
    takeBetter usable best status = best :=
  if_pos h

/-- and one that is may be the best. -/
theorem takeBetter_of_usable {usable : VenueStatus → Bool} {status : VenueStatus}
    (h : usable status = true) (best : Nat × Option VenueStatus) :
    takeBetter usable best status =
      if status.calculateRoutingScore > best.1 then
        (status.calculateRoutingScore, some status)
      else best :=
  if_neg (by simp [h])

/-- The best of the usable venues is usable. -/
theorem usable_of_bestAmong {lb : LoadBalancer} {usable : VenueStatus → Bool} {v : VenueStatus}
    (h : lb.bestAmong usable = some v) : usable v = true := by
  have hfold : ∀ (statuses : List VenueStatus) (best : Nat × Option VenueStatus),
      (∀ w, best.2 = some w → usable w = true) →
      ∀ w, (statuses.foldl (takeBetter usable) best).2 = some w → usable w = true := by
    intro statuses
    induction statuses with
    | nil => intro best hbest; exact hbest
    | cons status statuses ih =>
        intro best hbest
        refine ih _ fun w hw => ?_
        unfold takeBetter at hw
        split_ifs at hw with hskip hbetter
        · exact hbest w hw
        · rw [← Option.some.inj hw]
          exact Bool.of_not_eq_false hskip
        · exact hbest w hw
  exact hfold _ (0, none) nofun v h

/-- What the loop for fewer venues has found next to the loop for all of them: the same, or
the loop for all holds a venue that the other one skips. -/
def Trails (fewer : VenueStatus → Bool) (best best' : Nat × Option VenueStatus) : Prop :=
  best' = best ∨ best'.1 ≤ best.1 ∧ ∃ v, best.2 = some v ∧ fewer v = false

/-- One venue more for both loops. -/
theorem Trails.takeBetter {usable fewer : VenueStatus → Bool}
    (hfewer : ∀ v, fewer v = true → usable v = true) {best best' : Nat × Option VenueStatus}
    (h : Trails fewer best best') (status : VenueStatus) :
    Trails fewer (takeBetter usable best status) (takeBetter fewer best' status) := by
  have hle : best'.1 ≤ best.1 := by
    rcases h with rfl | ⟨hle, -⟩
    · exact le_rfl
    · exact hle
  cases hfew : fewer status with
  | true =>
      rw [takeBetter_of_usable (hfewer status hfew), takeBetter_of_usable hfew]
      by_cases hbetter : status.calculateRoutingScore > best.1
      · rw [if_pos hbetter, if_pos (lt_of_le_of_lt hle hbetter)]
        exact Or.inl rfl
      · rw [if_neg hbetter]
        rcases h with rfl | ⟨-, hskipped⟩
        · rw [if_neg hbetter]
          exact Or.inl rfl
        · refine Or.inr ⟨?_, hskipped⟩
          split
          · exact not_lt.mp hbetter
          · exact hle
  | false =>
      rw [takeBetter_of_skipped hfew]
      cases huse : usable status with
      | false =>
          rw [takeBetter_of_skipped huse]
          exact h
      | true =>
          rw [takeBetter_of_usable huse]
          split
          · rename_i hbetter
            exact Or.inr ⟨hle.trans hbetter.le, status, rfl, hfew⟩
          · exact h

/-- **Leaving out other venues does not change the best one.** -/
theorem bestAmong_of_fewer {lb : LoadBalancer} {usable fewer : VenueStatus → Bool}
    (hfewer : ∀ v, fewer v = true → usable v = true) {v : VenueStatus}
    (hbest : lb.bestAmong usable = some v) (hkept : fewer v = true) :
    lb.bestAmong fewer = some v := by
  have hfold : ∀ (statuses : List VenueStatus) (best best' : Nat × Option VenueStatus),
      Trails fewer best best' → Trails fewer (statuses.foldl (takeBetter usable) best)
        (statuses.foldl (takeBetter fewer) best') := by
    intro statuses
    induction statuses with
    | nil => intro best best' h; exact h
    | cons status statuses ih => intro best best' h; exact ih _ _ (h.takeBetter hfewer status)
  rcases hfold lb.venueStatuses.toList (0, none) (0, none) (Or.inl rfl) with
    hsame | ⟨-, w, hw, hskip⟩
  · exact (congrArg Prod.snd hsame).trans hbest
  · obtain rfl : w = v := Option.some.inj (hw.symm.trans hbest)
    exact absurd hkept (by simp [hskip])

/-- `select_best_venue`. -/
def selectBestVenue (lb : LoadBalancer) : Option OrderRoutingDecision × LoadBalancer :=
  if lb.activeCount = 0 then (none, lb)
  else
    match lb.bestAmong VenueStatus.isHealthy with
    | none => (none, lb)
    | some v =>
        (some v.decision, { lb with routingDecisions := (lb.routingDecisions + 1) % 2 ^ 64 })

/-- The loop of `select_round_robin`, with the rounds that are left: a healthy venue and its
index. -/
def nextHealthy (statuses : Vector VenueStatus maxVenues) : Nat → Nat → Option (Fin maxVenues)
  | 0, _ => none
  | rounds + 1, start =>
      let idx : Fin maxVenues := ⟨start % maxVenues, Nat.mod_lt start (by decide)⟩
      if (statuses.get idx).isHealthy then some idx
      else nextHealthy statuses rounds (start + 1)

/-- `select_round_robin`. -/
def selectRoundRobin (lb : LoadBalancer) : Option OrderRoutingDecision × LoadBalancer :=
  if lb.activeCount = 0 then (none, lb)
  else
    match nextHealthy lb.venueStatuses maxVenues lb.rrIndex with
    | none => (none, lb)
    | some idx =>
        (some (lb.venueStatuses.get idx).decision,
          { lb with
            rrIndex := (idx.val + 1) % maxVenues
            routingDecisions := (lb.routingDecisions + 1) % 2 ^ 64 })

/-- The venue may take the place of a failed one. -/
def standsIn (failedVenueId : Nat) (v : VenueStatus) : Bool :=
  v.isHealthy ∧ v.venueId ≠ failedVenueId

/-- `get_failover_venue`. -/
def getFailoverVenue (lb : LoadBalancer) (failedVenueId : Nat) :
    Option OrderRoutingDecision × LoadBalancer :=
  let lb := { lb with failoverCount := (lb.failoverCount + 1) % 2 ^ 64 }
  match lb.failoverPolicy with
  | .strictPrimary => (none, lb)
  | .roundRobin => (lb.selectRoundRobin.1.map (·.asFailover), lb.selectRoundRobin.2)
  | .immediate | .delayed _ =>
      ((lb.bestAmong (standsIn failedVenueId)).map fun v => v.decision.asFailover, lb)

end LoadBalancer

/-! ## The manager -/

/-- `GatewayManager`, as far as it routes orders: the registered venues are given by their
ids, and `events` are the `OrderRouted` events sent. -/
structure GatewayManager where
  loadBalancer : LoadBalancer
  venues : List Nat
  ordersRouted : Nat
  errorCount : Nat
  events : List (Nat × Nat)

/-- What the venues answer: to an attempt, on a venue. -/
abbrev Answers := Nat → Nat → Except VenueError OrderResponse

/-- An order submitted to a venue, and the answer. -/
structure Submission where
  venueId : Nat
  answer : Except VenueError OrderResponse

/-- The error an answer counts as, when the venue failed. -/
def failure : Except VenueError OrderResponse → Option VenueError
  | .ok response => if response.isRejected then some .orderRejected else none
  | .error e => some e

namespace GatewayManager

/-- `find_venue`. -/
def findVenue (m : GatewayManager) (venueId : Nat) : Option Nat := m.venues.find? (· = venueId)

/-- The decision of an attempt: the best venue first, then failovers for venue 0. -/
def nextDecision (m : GatewayManager) (attempt : Nat) :
    Option OrderRoutingDecision × GatewayManager :=
  let (decision, lb) :=
    if attempt = 0 then m.loadBalancer.selectBestVenue else m.loadBalancer.getFailoverVenue 0
  (decision, { m with loadBalancer := lb })

/-- An order has been routed to a venue. -/
def routed (m : GatewayManager) (order : OrderRequest) (venueId : Nat) : GatewayManager :=
  { m with
    ordersRouted := (m.ordersRouted + 1) % 2 ^ 64
    events := m.events ++ [(order.clientOrderId, venueId)] }

/-- The result of a route, the manager it leaves, and the submissions in their order. -/
structure Routed where
  result : Except VenueError OrderResponse
  manager : GatewayManager
  submissions : List Submission

/-- The loop of `route_order_with_failover`, with the attempts that are left. -/
def routeLoop (order : OrderRequest) (answers : Answers) :
    Nat → Nat → GatewayManager → Option VenueError → Routed
  | 0, _, m, lastError =>
      ⟨.error (lastError.getD .internalError), { m with errorCount := (m.errorCount + 1) % 2 ^ 64 },
        []⟩
  | left + 1, attempt, m, lastError =>
      match m.nextDecision attempt with
      | (none, m) => ⟨.error (lastError.getD .notConnected), m, []⟩
      | (some decision, m) =>
          match m.findVenue decision.venueId with
          | none => ⟨.error .notConnected, m, []⟩
          | some venueId =>
              let answer := answers attempt venueId
              match answer, failure answer with
              | .ok response, none =>
                  ⟨.ok response, m.routed order decision.venueId, [⟨venueId, answer⟩]⟩
              | _, lastError =>
                  let rest := routeLoop order answers left (attempt + 1) m lastError
                  { rest with submissions := ⟨venueId, answer⟩ :: rest.submissions }

/-- `route_order_with_failover`. -/
def routeOrderWithFailover (m : GatewayManager) (order : OrderRequest) (answers : Answers) :
    Routed :=
  routeLoop order answers 3 0 m none

/-! ## Where the attempts go -/

/-- The venues the attempts go to as long as the attempts before them have failed. -/
def targets : Nat → Nat → GatewayManager → List (Option Nat)
  | 0, _, _ => []
  | left + 1, attempt, m =>
      (m.nextDecision attempt).1.map (·.venueId) ::
        targets left (attempt + 1) (m.nextDecision attempt).2

/-- The submissions to venues in a row: one after the other while the venues are registered
and fail. -/
def submit (venues : List Nat) (answers : Answers) : List (Option Nat) → Nat → List Submission
  | [], _ | none :: _, _ => []
  | some v :: rest, attempt =>
      if v ∈ venues then
        ⟨v, answers attempt v⟩ ::
          if (failure (answers attempt v)).isSome then submit venues answers rest (attempt + 1)
          else []
      else []

/-- A venue is found if it is registered. -/
theorem findVenue_eq (m : GatewayManager) (v : Nat) :
    m.findVenue v = if v ∈ m.venues then some v else none := by
  unfold findVenue
  split
  · rename_i hmem
    obtain ⟨w, hw⟩ : ∃ w, m.venues.find? (· = v) = some w :=
      Option.isSome_iff_exists.mp (List.find?_isSome.mpr ⟨v, hmem, decide_eq_true rfl⟩)
    have heq : w = v := by simpa using List.find?_some hw
    rw [hw, heq]
  · rename_i hmem
    rw [List.find?_eq_none]
    intro w hw heq
    exact hmem (of_decide_eq_true heq ▸ hw)

/-- **The submissions of a route** are made to the targets in their order. -/
theorem submissions_routeLoop (order : OrderRequest) (answers : Answers) :
    ∀ (left attempt : Nat) (m : GatewayManager) (lastError : Option VenueError),
      (routeLoop order answers left attempt m lastError).submissions =
        submit m.venues answers (targets left attempt m) attempt := by
  intro left
  induction left with
  | zero => intro attempt m lastError; rfl
  | succ left ih =>
      intro attempt m lastError
      have hvenues : (m.nextDecision attempt).2.venues = m.venues := rfl
      rw [routeLoop, targets]
      rcases hdecision : m.nextDecision attempt with ⟨_ | decision, m'⟩
      · rfl
      · rw [hdecision] at hvenues
        dsimp only at hvenues ⊢
        rw [Option.map_some, submit, findVenue_eq, hvenues]
        by_cases hmem : decision.venueId ∈ m.venues
        · rw [if_pos hmem, if_pos hmem]
          dsimp only
          -- An answer that is no failure ends the route, any other goes on.
          cases hanswer : answers attempt decision.venueId with
          | error e => simp [failure, ih, hvenues]
          | ok response =>
              cases hrejected : response.isRejected with
              | false => simp [failure, hrejected]
              | true => simp [failure, hrejected, ih, hvenues]
        · rw [if_neg hmem, if_neg hmem]

/-! ## Submissions to a venue that has failed -/

/-- **No submission goes to a venue that has failed before.** -/
def NoRepeat (submissions : List Submission) : Prop :=
  submissions.Pairwise fun s t => (failure s.answer).isSome = true → t.venueId ≠ s.venueId

/-- The venue is registered and fails in an attempt. -/
def Fails (m : GatewayManager) (answers : Answers) (attempt v : Nat) : Prop :=
  v ∈ m.venues ∧ (failure (answers attempt v)).isSome = true

instance (m : GatewayManager) (answers : Answers) (attempt v : Nat) :
    Decidable (m.Fails answers attempt v) :=
  inferInstanceAs (Decidable (_ ∧ _))

/-- The targets from an attempt on keep away from the venues tried before and from one
another, as far as they are reached. -/
def Fresh (m : GatewayManager) (answers : Answers) (tried : List Nat) :
    List (Option Nat) → Nat → Prop
  | [], _ | none :: _, _ => True
  | some v :: rest, attempt =>
      v ∈ m.venues → v ∉ tried ∧
        (m.Fails answers attempt v → m.Fresh answers (v :: tried) rest (attempt + 1))

/-- By induction on the targets; every submission but the last one has failed. -/
theorem fresh_iff (m : GatewayManager) (answers : Answers) :
    ∀ (targets : List (Option Nat)) (attempt : Nat) (tried : List Nat),
      m.Fresh answers tried targets attempt ↔
        NoRepeat (submit m.venues answers targets attempt) ∧
          ∀ s ∈ submit m.venues answers targets attempt, s.venueId ∉ tried := by
  intro targets
  induction targets with
  | nil => intro attempt tried; exact iff_of_true trivial ⟨List.Pairwise.nil, nofun⟩
  | cons target targets ih =>
      intro attempt tried
      cases target with
      | none => exact iff_of_true trivial ⟨List.Pairwise.nil, nofun⟩
      | some v =>
          by_cases hmem : v ∈ m.venues
          · rw [Fresh, submit, if_pos hmem]
            by_cases hfails : (failure (answers attempt v)).isSome = true
            · have hf : m.Fails answers attempt v := ⟨hmem, hfails⟩
              rw [if_pos hfails, NoRepeat, List.pairwise_cons, List.forall_mem_cons]
              simp only [hmem, hf, hfails, true_imp_iff, ih, List.mem_cons, not_or, NoRepeat]
              constructor
              · rintro ⟨hv, hrest, htried⟩
                exact ⟨⟨fun s hs => (htried s hs).1, hrest⟩, hv, fun s hs => (htried s hs).2⟩
              · rintro ⟨⟨hne, hrest⟩, hv, htried⟩
                exact ⟨hv, hrest, fun s hs => ⟨hne s hs, htried s hs⟩⟩
            · have hf : ¬ m.Fails answers attempt v := fun h => hfails h.2
              rw [if_neg hfails]
              simp [hmem, hf, NoRepeat]
          · rw [Fresh, submit, if_neg hmem]
            exact iff_of_true (fun h => absurd h hmem) ⟨List.Pairwise.nil, nofun⟩

/-- **Submissions repeat if the targets do**, as far as they are reached. -/
theorem noRepeat_iff_fresh (m : GatewayManager) (order : OrderRequest) (answers : Answers) :
    NoRepeat (m.routeOrderWithFailover order answers).submissions ↔
      m.Fresh answers [] (targets 3 0 m) 0 := by
  rw [fresh_iff, routeOrderWithFailover, submissions_routeLoop]
  exact (and_iff_left fun _ _ => List.not_mem_nil).symm

/-! ## The targets of each policy -/

end GatewayManager

namespace LoadBalancer

/-- The venue `select_best_venue` decides for. -/
def best (lb : LoadBalancer) : Option Nat := lb.selectBestVenue.1.map (·.venueId)

/-- The best venue other than venue 0. -/
def failover (lb : LoadBalancer) : Option Nat := (lb.bestAmong (standsIn 0)).map (·.venueId)

/-- The venue `select_round_robin` decides for. -/
def nextInTurn (lb : LoadBalancer) : Option Nat := lb.selectRoundRobin.1.map (·.venueId)

/-- The venue `select_round_robin` decides for the time after. -/
def secondInTurn (lb : LoadBalancer) : Option Nat :=
  lb.selectRoundRobin.2.selectRoundRobin.1.map (·.venueId)

/-- A failover is never venue 0. -/
theorem ne_zero_of_failover {lb : LoadBalancer} {v : Nat} (h : lb.failover = some v) : v ≠ 0 := by
  obtain ⟨status, hstatus, rfl⟩ := Option.map_eq_some_iff.mp h
  exact (of_decide_eq_true (usable_of_bestAmong hstatus)).2

/-- **The failover for venue 0 is the best venue itself**, unless that is venue 0. -/
theorem failover_eq_best {lb : LoadBalancer} {v : Nat} (h : lb.best = some v) (hv : v ≠ 0) :
    lb.failover = some v := by
  unfold best selectBestVenue at h
  split at h
  · exact absurd h nofun
  · cases hbest : lb.bestAmong VenueStatus.isHealthy with
    | none =>
        rw [hbest] at h
        exact absurd h nofun
    | some status =>
        rw [hbest] at h
        obtain rfl : status.venueId = v := Option.some.inj h
        have hhealthy := usable_of_bestAmong hbest
        have hstands : standsIn 0 status = true := decide_eq_true ⟨hhealthy, hv⟩
        rw [failover, bestAmong_of_fewer (fun w hw => (of_decide_eq_true hw).1) hbest hstands]
        rfl

/-- The load balancer with other counters. -/
def recount (lb : LoadBalancer) (routingDecisions failoverCount : Nat) : LoadBalancer :=
  { lb with routingDecisions := routingDecisions, failoverCount := failoverCount }

/-- Choosing the best venue only counts. -/
theorem exists_recount_selectBestVenue (lb : LoadBalancer) :
    ∃ n k, lb.selectBestVenue.2 = lb.recount n k := by
  unfold selectBestVenue
  split
  · exact ⟨lb.routingDecisions, lb.failoverCount, rfl⟩
  · split
    · exact ⟨lb.routingDecisions, lb.failoverCount, rfl⟩
    · exact ⟨(lb.routingDecisions + 1) % 2 ^ 64, lb.failoverCount, rfl⟩

/-- The choice of the next venue in turn does not depend on the counters. -/
theorem selectRoundRobin_recount (lb : LoadBalancer) (n k : Nat) :
    (lb.recount n k).selectRoundRobin.1 = lb.selectRoundRobin.1 ∧
      ∃ n', (lb.recount n k).selectRoundRobin.2 = lb.selectRoundRobin.2.recount n' k := by
  have hactive : (lb.recount n k).activeCount = lb.activeCount := rfl
  have hnext : nextHealthy (lb.recount n k).venueStatuses maxVenues (lb.recount n k).rrIndex =
      nextHealthy lb.venueStatuses maxVenues lb.rrIndex := rfl
  unfold selectRoundRobin
  rw [hactive, hnext]
  split
  · exact ⟨rfl, n, rfl⟩
  · split
    · exact ⟨rfl, n, rfl⟩
    · exact ⟨rfl, (n + 1) % 2 ^ 64, rfl⟩

/-- Taking turns changes no policy. -/
theorem failoverPolicy_selectRoundRobin (lb : LoadBalancer) :
    lb.selectRoundRobin.2.failoverPolicy = lb.failoverPolicy := by
  unfold selectRoundRobin
  split
  · rfl
  · split <;> rfl

/-- A failover of each policy: the venue, and what is left behind. -/
theorem getFailoverVenue_recount (lb : LoadBalancer) (n k : Nat) :
    ((lb.recount n k).getFailoverVenue 0).1.map (·.venueId) =
        (match lb.failoverPolicy with
          | .strictPrimary => none
          | .roundRobin => lb.nextInTurn
          | .immediate | .delayed _ => lb.failover) ∧
      ∃ n' k', ((lb.recount n k).getFailoverVenue 0).2 =
        (match lb.failoverPolicy with
          | .roundRobin => lb.selectRoundRobin.2
          | .strictPrimary | .immediate | .delayed _ => lb).recount n' k' := by
  have hcall : (lb.recount n k).getFailoverVenue 0 =
      let counted := lb.recount n ((k + 1) % 2 ^ 64)
      match lb.failoverPolicy with
      | .strictPrimary => (none, counted)
      | .roundRobin => (counted.selectRoundRobin.1.map (·.asFailover), counted.selectRoundRobin.2)
      | .immediate | .delayed _ =>
          ((lb.bestAmong (standsIn 0)).map fun v => v.decision.asFailover, counted) := rfl
  rw [hcall]
  cases lb.failoverPolicy with
  | strictPrimary => exact ⟨rfl, n, _, rfl⟩
  | immediate | delayed =>
      refine ⟨?_, n, _, rfl⟩
      rw [Option.map_map]
      rfl
  | roundRobin =>
      obtain ⟨hsame, n', hrest⟩ := selectRoundRobin_recount lb n ((k + 1) % 2 ^ 64)
      refine ⟨?_, n', _, hrest⟩
      dsimp only
      rw [hsame, Option.map_map]
      rfl

end LoadBalancer

namespace GatewayManager

/-- The targets by policy. -/
theorem targets_eq (m : GatewayManager) :
    targets 3 0 m =
      match m.loadBalancer.failoverPolicy with
      | .strictPrimary => [m.loadBalancer.best, none, none]
      | .roundRobin =>
          [m.loadBalancer.best, m.loadBalancer.nextInTurn, m.loadBalancer.secondInTurn]
      | .immediate | .delayed _ =>
          [m.loadBalancer.best, m.loadBalancer.failover, m.loadBalancer.failover] := by
  obtain ⟨n, k, hfirst⟩ := m.loadBalancer.exists_recount_selectBestVenue
  obtain ⟨hsecond, n', k', hleft⟩ := m.loadBalancer.getFailoverVenue_recount n k
  have htargets : targets 3 0 m =
      [m.loadBalancer.best,
        ((m.loadBalancer.recount n k).getFailoverVenue 0).1.map (·.venueId),
        ((m.loadBalancer.recount n k).getFailoverVenue 0).2.getFailoverVenue 0 |>.1.map
          (·.venueId)] := by
    rw [← hfirst]
    rfl
  rw [htargets, hsecond, hleft]
  cases hpolicy : m.loadBalancer.failoverPolicy with
  | strictPrimary | immediate | delayed =>
      dsimp only
      rw [(m.loadBalancer.getFailoverVenue_recount n' k').1, hpolicy]
  | roundRobin =>
      dsimp only
      rw [(m.loadBalancer.selectRoundRobin.2.getFailoverVenue_recount n' k').1,
        LoadBalancer.failoverPolicy_selectRoundRobin, hpolicy]
      rfl

/-! ## When no venue is asked again -/

/-- **No venue is asked again after a failure.**  If the best venue fails: without a primary
venue only, nothing more is asked; by score, the best venue has to be venue 0 and the best of
the others must not fail; in turn, the next two venues have to be other ones, as far as they
are registered and reached. -/
def Clear (m : GatewayManager) (answers : Answers) : Prop :=
  ∀ b, m.loadBalancer.best = some b → m.Fails answers 0 b →
    match m.loadBalancer.failoverPolicy with
    | .strictPrimary => True
    | .immediate | .delayed _ =>
        b = 0 ∧ ∀ v, m.loadBalancer.failover = some v → ¬ m.Fails answers 1 v
    | .roundRobin =>
        ∀ v, m.loadBalancer.nextInTurn = some v → v ∈ m.venues →
          v ≠ b ∧ (m.Fails answers 1 v →
            ∀ w, m.loadBalancer.secondInTurn = some w → w ∈ m.venues → w ≠ b ∧ w ≠ v)

/-- One target more: it was not tried, and if it fails the rest have to be fresh. -/
theorem fresh_some (m : GatewayManager) (answers : Answers) (tried : List Nat)
    (target : Option Nat) (rest : List (Option Nat)) (attempt : Nat) :
    m.Fresh answers tried (target :: rest) attempt ↔
      ∀ v, target = some v → v ∈ m.venues → v ∉ tried ∧
        (m.Fails answers attempt v → m.Fresh answers (v :: tried) rest (attempt + 1)) := by
  cases target with
  | none => exact iff_of_true trivial nofun
  | some v => exact ⟨fun h w hw => Option.some.inj hw ▸ h, fun h => h v rfl⟩

/-- The three targets of a route. -/
theorem fresh_three (m : GatewayManager) (answers : Answers) (first second third : Option Nat) :
    m.Fresh answers [] [first, second, third] 0 ↔
      ∀ b, first = some b → m.Fails answers 0 b →
        ∀ v, second = some v → v ∈ m.venues →
          v ≠ b ∧ (m.Fails answers 1 v → ∀ w, third = some w → w ∈ m.venues → w ≠ b ∧ w ≠ v) := by
  simp only [fresh_some, List.not_mem_nil, not_false_iff, true_and, List.mem_cons,
    or_false, not_or, Fresh, implies_true, and_true]
  constructor
  · intro h b hb hfails v hv hmem
    obtain ⟨hne, hthird⟩ := h b hb hfails.1 hfails v hv hmem
    exact ⟨hne, fun hsecond w hw hwmem => (hthird hsecond w hw hwmem).symm⟩
  · intro h b hb _ hfails v hv hmem
    obtain ⟨hne, hthird⟩ := h b hb hfails v hv hmem
    exact ⟨hne, fun hsecond w hw hwmem => (hthird hsecond w hw hwmem).symm⟩

/-- By score: a venue other than 0 is the failover for itself, and the second failover is the
first one. -/
theorem fresh_byScore (m : GatewayManager) (answers : Answers) :
    m.Fresh answers [] [m.loadBalancer.best, m.loadBalancer.failover, m.loadBalancer.failover] 0 ↔
      ∀ b, m.loadBalancer.best = some b → m.Fails answers 0 b →
        b = 0 ∧ ∀ v, m.loadBalancer.failover = some v → ¬ m.Fails answers 1 v := by
  rw [fresh_three]
  refine forall_congr' fun b => imp_congr_right fun hb => imp_congr_right fun hfails => ?_
  constructor
  · intro h
    have hzero : b = 0 := by
      by_contra hne
      exact (h b (LoadBalancer.failover_eq_best hb hne) hfails.1).1 rfl
    exact ⟨hzero, fun v hv hfailed => ((h v hv hfailed.1).2 hfailed v hv hfailed.1).2 rfl⟩
  · rintro ⟨rfl, hfailover⟩ v hv hmem
    exact ⟨LoadBalancer.ne_zero_of_failover hv, fun hfailed => absurd hfailed (hfailover v hv)⟩

/-- **When no venue is asked again**, for every load balancer, set of venues and answers. -/
theorem noRepeat_iff_clear (m : GatewayManager) (order : OrderRequest) (answers : Answers) :
    NoRepeat (m.routeOrderWithFailover order answers).submissions ↔ m.Clear answers := by
  rw [noRepeat_iff_fresh, targets_eq, Clear]
  cases m.loadBalancer.failoverPolicy with
  | strictPrimary =>
      refine iff_of_true ?_ fun _ _ _ => trivial
      rw [fresh_three]
      exact fun b _ _ v hv => absurd hv nofun
  | roundRobin => exact m.fresh_three answers _ _ _
  | immediate | delayed => exact m.fresh_byScore answers

/-- A manager whose venues have just been connected. -/
def connected (policy : FailoverPolicy) (ids : List Nat) : GatewayManager where
  loadBalancer :=
    { venueStatuses := Vector.ofFn fun i =>
        if i.val ∈ ids then ⟨i, true, 2 ^ 64 - 1, 0, 100⟩ else ⟨0, false, 2 ^ 64 - 1, 0, 0⟩
      activeCount := ids.length
      rrIndex := 0
      failoverPolicy := policy
      routingDecisions := 0
      failoverCount := 0 }
  venues := ids
  ordersRouted := 0
  errorCount := 0
  events := []

/-- **With venues 1 and 2 the order goes to venue 1 three times** while that times out. -/
theorem not_forall_noRepeat :
    ¬ ∀ (m : GatewayManager) (order : OrderRequest) (answers : Answers),
      NoRepeat (m.routeOrderWithFailover order answers).submissions := by
  intro h
  have hroute := h (connected .immediate [1, 2]) ⟨7, 0⟩ fun _ _ => .error .timeout
  revert hroute
  unfold NoRepeat
  decide

end GatewayManager

end StopTrading.Gateway
