import StopTrading.Gateway.Failover
import StopTrading.Library.LastWrite
import StopTrading.Library.RoundRobin
import Mathlib.Data.Vector.Basic

/-!
# Which venue the load balancer selects

`select_best_venue` scans the status table for the venue with the highest score, and
`select_round_robin` moves a cursor from one healthy venue to the next.  Both look at
`active_count` first.

- Where `active_count` is not 0 and no score overflows, the scan is complete and optimal
  (`soundSelection_of_counted`); `update_active_count` makes the count so.
- `update_venue_status` leaves `active_count` as it is, though its comments name the place
  where to count.  After updates alone the count is still 0, and nothing is selected:
  `soundSelection_iff` says that this is right only where no venue is healthy.
- Round robin is fair from every cursor: any `k` calls in a row select each of the `k`
  healthy venues once, and the next `k` calls select them in the same order
  (`roundRobin_fair`).

### What is load-bearing

A scan that starts from the score zero and replaces only by larger scores returns nothing where
all scores are zero.  A healthy venue has a score above zero unless the sum wraps, and that is
the second clause of the condition; the first is the count, which both selections look at before
anything else.

Round robin is described by a queue, the rows of healthy venues in the order in which the cursor
comes to them.  One selection moves the first to the end, so that `m` selections are a rotation
by `m`, and fairness is a fact about rotating a list through its length.
-/

namespace StopTrading.Gateway

namespace VenueStatus

/-- `new`. -/
def new (venueId : Nat) : VenueStatus where
  venueId := venueId
  isConnected := false
  latencyNs := 2 ^ 64 - 1
  liquidityScore := 0
  healthScore := 0

/-- The sum of the score of a healthy venue, before it is cut to a `u32`. -/
def scoreSum (v : VenueStatus) : Nat :=
  OrderRoutingDecision.latencyFactor v.latencyNs * 3 + v.healthScore * 2 + v.liquidityScore

/-- The computation of the score does not overflow. -/
def ScoreFits (v : VenueStatus) : Prop := v.isHealthy = true → v.scoreSum < 2 ^ 32

/-- The score of a healthy venue is a sixth of a sum, which wraps. -/
theorem calculateRoutingScore_of_healthy {v : VenueStatus} (h : v.isHealthy = true) :
    v.calculateRoutingScore = v.scoreSum % 2 ^ 32 / 6 :=
  if_neg (by simp [h])

/-- The latency never takes all of a score away. -/
theorem le_latencyFactor (latencyNs : Nat) :
    40 ≤ OrderRoutingDecision.latencyFactor latencyNs := by
  unfold OrderRoutingDecision.latencyFactor
  split_ifs <;> omega

/-- A healthy venue has a positive score, unless the sum overflows. -/
theorem calculateRoutingScore_pos {v : VenueStatus} (h : v.isHealthy = true)
    (hfits : v.ScoreFits) : 0 < v.calculateRoutingScore := by
  have hfactor := le_latencyFactor v.latencyNs
  have hlow : 6 ≤ v.scoreSum := by
    unfold scoreSum
    omega
  rw [calculateRoutingScore_of_healthy h, Nat.mod_eq_of_lt (hfits h)]
  exact Nat.div_pos hlow (by decide)

end VenueStatus

namespace LoadBalancer

/-! ## The status table -/

/-- `new`. -/
def new (failoverPolicy : FailoverPolicy) : LoadBalancer where
  venueStatuses := Vector.replicate maxVenues (VenueStatus.new 0)
  activeCount := 0
  rrIndex := 0
  failoverPolicy := failoverPolicy
  routingDecisions := 0
  failoverCount := 0

/-- `update_venue_status`. -/
def updateVenueStatus (lb : LoadBalancer) (status : VenueStatus) : LoadBalancer :=
  if h : status.venueId < maxVenues then
    -- The branch for a healthy venue is empty in the source.
    { lb with venueStatuses := lb.venueStatuses.set status.venueId status h }
  else lb

/-- The load balancer after a row of updates. -/
def updateAll (lb : LoadBalancer) (statuses : List VenueStatus) : LoadBalancer :=
  statuses.foldl updateVenueStatus lb

/-- `get_healthy_venues`. -/
def getHealthyVenues (lb : LoadBalancer) : List VenueStatus :=
  lb.venueStatuses.toList.filter VenueStatus.isHealthy

/-- `update_active_count`. -/
def updateActiveCount (lb : LoadBalancer) : LoadBalancer :=
  { lb with activeCount := lb.getHealthyVenues.length }

/-- An update does not count, -/
@[simp] theorem activeCount_updateVenueStatus (lb : LoadBalancer) (status : VenueStatus) :
    (lb.updateVenueStatus status).activeCount = lb.activeCount := by
  unfold updateVenueStatus
  split <;> rfl

/-- and many do not either. -/
theorem activeCount_updateAll (statuses : List VenueStatus) (lb : LoadBalancer) :
    (lb.updateAll statuses).activeCount = lb.activeCount := by
  induction statuses generalizing lb with
  | nil => rfl
  | cons status statuses ih => exact (ih _).trans (activeCount_updateVenueStatus lb status)

/-! ## The best venue -/

/-- **The selection is complete and optimal**: a venue is selected exactly if there is a
healthy one, the selected venue is healthy and has the highest score, and no score
overflows. -/
structure SoundSelection (lb : LoadBalancer) : Prop where
  /-- something is selected if something is healthy -/
  complete : lb.selectBestVenue.1.isSome = true ↔ ∃ v ∈ lb.venueStatuses, v.isHealthy = true
  /-- and nothing has a higher score -/
  optimal : ∀ d, lb.selectBestVenue.1 = some d → ∃ v ∈ lb.venueStatuses, v.isHealthy = true ∧
    d = v.decision ∧ ∀ w ∈ lb.venueStatuses, w.calculateRoutingScore ≤ v.calculateRoutingScore
  /-- no score overflows -/
  fits : ∀ v ∈ lb.venueStatuses, v.ScoreFits

/-- What the scan holds after some venues: nothing and the score 0 where none of them has a
positive score, and else one with the highest score. -/
structure Leads (seen : List VenueStatus) (best : Nat × Option VenueStatus) : Prop where
  /-- nothing seen is better -/
  le : ∀ w ∈ seen, w.isHealthy = true → w.calculateRoutingScore ≤ best.1
  /-- what is held was seen -/
  held : ∀ v, best.2 = some v → v ∈ seen ∧ v.isHealthy = true ∧ v.calculateRoutingScore = best.1
  /-- and nothing is held at zero only -/
  none : best.2 = none → best.1 = 0

/-- One venue more is scanned. -/
theorem Leads.takeBetter {seen : List VenueStatus} {best : Nat × Option VenueStatus}
    (h : Leads seen best) (status : VenueStatus) :
    Leads (seen ++ [status]) (takeBetter VenueStatus.isHealthy best status) := by
  cases hhealthy : status.isHealthy with
  | false =>
      rw [takeBetter_of_skipped hhealthy]
      refine ⟨fun w hw hw' => ?_, fun v hv => ?_, h.none⟩
      · rcases List.mem_append.mp hw with hw | hw
        · exact h.le w hw hw'
        · rw [List.mem_singleton.mp hw, hhealthy] at hw'
          exact absurd hw' (by decide)
      · exact ⟨List.mem_append_left _ (h.held v hv).1, (h.held v hv).2⟩
  | true =>
      rw [takeBetter_of_usable hhealthy]
      split
      · rename_i hbetter
        refine ⟨fun w hw hw' => ?_, fun v hv => ?_, nofun⟩
        · rcases List.mem_append.mp hw with hw | hw
          · exact (h.le w hw hw').trans hbetter.le
          · rw [List.mem_singleton.mp hw]
        · obtain rfl : status = v := Option.some.inj hv
          exact ⟨List.mem_append_right _ (List.mem_singleton_self status), hhealthy, rfl⟩
      · rename_i hworse
        refine ⟨fun w hw hw' => ?_, fun v hv => ?_, h.none⟩
        · rcases List.mem_append.mp hw with hw | hw
          · exact h.le w hw hw'
          · rw [List.mem_singleton.mp hw]
            exact not_lt.mp hworse
        · exact ⟨List.mem_append_left _ (h.held v hv).1, (h.held v hv).2⟩

/-- **The scan** leads the table. -/
theorem leads_bestAmong (lb : LoadBalancer) : ∃ score,
    Leads lb.venueStatuses.toList (score, lb.bestAmong VenueStatus.isHealthy) := by
  have hfold : ∀ (statuses seen : List VenueStatus) (best : Nat × Option VenueStatus),
      Leads seen best →
      Leads (seen ++ statuses) (statuses.foldl (takeBetter VenueStatus.isHealthy) best) := by
    intro statuses
    induction statuses with
    | nil =>
        intro seen best h
        rwa [List.append_nil]
    | cons status statuses ih =>
        intro seen best h
        have hrest := ih _ _ (h.takeBetter status)
        rwa [List.append_assoc] at hrest
  exact ⟨_, hfold lb.venueStatuses.toList [] (0, none) ⟨nofun, nofun, fun _ => rfl⟩⟩

/-- Without a count nothing is selected, -/
theorem selectBestVenue_of_not_counted {lb : LoadBalancer} (h : lb.activeCount = 0) :
    lb.selectBestVenue.1 = none := by
  unfold selectBestVenue
  rw [if_pos h]

/-- and with one the best venue that was scanned. -/
theorem selectBestVenue_of_counted {lb : LoadBalancer} (h : lb.activeCount ≠ 0) :
    lb.selectBestVenue.1 = (lb.bestAmong VenueStatus.isHealthy).map (·.decision) := by
  unfold selectBestVenue
  rw [if_neg h]
  cases lb.bestAmong VenueStatus.isHealthy <;> rfl

/-- Without a count a healthy venue is left out. -/
theorem not_soundSelection_of_healthy {lb : LoadBalancer} (hcount : lb.activeCount = 0)
    {v : VenueStatus} (hv : v ∈ lb.venueStatuses) (hhealthy : v.isHealthy = true) :
    ¬ lb.SoundSelection := by
  intro h
  have hsome := h.complete.mpr ⟨v, hv, hhealthy⟩
  rw [selectBestVenue_of_not_counted hcount] at hsome
  exact absurd hsome nofun

/-- Without a count and without healthy venues it is right to select nothing. -/
theorem soundSelection_of_none {lb : LoadBalancer} (hcount : lb.activeCount = 0)
    (hnone : ∀ v ∈ lb.venueStatuses, v.isHealthy = false) : lb.SoundSelection := by
  have hselect := selectBestVenue_of_not_counted hcount
  refine ⟨?_, fun d hd => ?_, fun v hv hhealthy => ?_⟩
  · rw [hselect]
    refine iff_of_false nofun ?_
    rintro ⟨v, hv, hhealthy⟩
    exact absurd hhealthy (by simp [hnone v hv])
  · rw [hselect] at hd
    exact absurd hd nofun
  · exact absurd hhealthy (by simp [hnone v hv])

/-- **With a count that is not 0 and no overflow the selection is complete and optimal.** -/
theorem soundSelection_of_counted {lb : LoadBalancer} (hcount : lb.activeCount ≠ 0)
    (hfits : ∀ v ∈ lb.venueStatuses, v.ScoreFits) : lb.SoundSelection := by
  obtain ⟨score, hleads⟩ := lb.leads_bestAmong
  have hselect := selectBestVenue_of_counted hcount
  refine ⟨?_, fun d hd => ?_, hfits⟩
  · rw [hselect, Option.isSome_map]
    constructor
    · intro hsome
      obtain ⟨v, hv⟩ := Option.isSome_iff_exists.mp hsome
      obtain ⟨hmem, hhealthy, -⟩ := hleads.held v hv
      exact ⟨v, Vector.mem_toList_iff.mp hmem, hhealthy⟩
    · rintro ⟨v, hmem, hhealthy⟩
      by_contra hnone
      have hzero := hleads.none (Option.not_isSome_iff_eq_none.mp hnone)
      have hle := hleads.le v (Vector.mem_toList_iff.mpr hmem) hhealthy
      have hpos := VenueStatus.calculateRoutingScore_pos hhealthy (hfits v hmem)
      dsimp only at hzero hle
      omega
  · rw [hselect] at hd
    obtain ⟨v, hv, rfl⟩ := Option.map_eq_some_iff.mp hd
    obtain ⟨hmem, hhealthy, hscore⟩ := hleads.held v hv
    refine ⟨v, Vector.mem_toList_iff.mp hmem, hhealthy, rfl, fun w hw => ?_⟩
    cases hw' : w.isHealthy with
    | true => exact hscore ▸ hleads.le w (Vector.mem_toList_iff.mpr hw) hw'
    | false =>
        have hzero : w.calculateRoutingScore = 0 := if_pos hw'
        exact hzero ▸ Nat.zero_le _

/-- **`update_active_count` makes the selection complete and optimal** where no score
overflows. -/
theorem soundSelection_updateActiveCount {lb : LoadBalancer}
    (hfits : ∀ v ∈ lb.venueStatuses, v.ScoreFits) : lb.updateActiveCount.SoundSelection := by
  by_cases hcount : lb.updateActiveCount.activeCount = 0
  · have hnone : lb.getHealthyVenues = [] := List.length_eq_zero_iff.mp hcount
    exact soundSelection_of_none hcount fun v hv => Bool.eq_false_iff.mpr
      (List.filter_eq_nil_iff.mp hnone v (Vector.mem_toList_iff.mpr hv))
  · exact soundSelection_of_counted hcount hfits

/-! ## After updates alone -/

/-- The status last reported for a venue. -/
def lastStatus (statuses : List VenueStatus) (venueId : Nat) : Option VenueStatus :=
  LastWrite.last (fun status => status.venueId = venueId) statuses

/-- **The table** holds the last status of each venue. -/
theorem getElem_updateAll {i : Nat} (hi : i < maxVenues) (statuses : List VenueStatus)
    (lb : LoadBalancer) :
    (lb.updateAll statuses).venueStatuses[i] =
      (lastStatus statuses i).getD lb.venueStatuses[i] := by
  have hrow := LastWrite.read_foldl (fun lb : LoadBalancer => lb.venueStatuses[i])
    updateVenueStatus id (fun status => status.venueId = i)
    (fun lb status hid => by
      obtain rfl := of_decide_eq_true hid
      simp [updateVenueStatus, hi])
    (fun lb status hid => by
      unfold updateVenueStatus
      split
      · exact Vector.getElem_set_ne ‹_› hi (of_decide_eq_false hid)
      · rfl) statuses lb
  rwa [Option.map_id] at hrow

/-- No venue has been reported healthy last. -/
def NoneHealthy (statuses : List VenueStatus) : Prop :=
  ∀ venueId < maxVenues, ∀ status, lastStatus statuses venueId = some status →
    status.isHealthy = false

/-- The table holds what was reported last. -/
theorem noneHealthy_iff (failoverPolicy : FailoverPolicy) (statuses : List VenueStatus) :
    NoneHealthy statuses ↔
      ∀ v ∈ ((new failoverPolicy).updateAll statuses).venueStatuses, v.isHealthy = false := by
  have hnew : ∀ (i : Nat) (hi : i < maxVenues),
      (new failoverPolicy).venueStatuses[i] = VenueStatus.new 0 :=
    fun i hi => Vector.getElem_replicate hi
  constructor
  · intro h v hv
    obtain ⟨i, hi, rfl⟩ := Vector.mem_iff_getElem.mp hv
    rw [getElem_updateAll hi, hnew i hi]
    cases hlast : lastStatus statuses i with
    | none => rfl
    | some status => exact h i hi status hlast
  · intro h venueId hid status hlast
    have hat := getElem_updateAll hid statuses (new failoverPolicy)
    rw [hlast, Option.getD_some] at hat
    exact hat ▸ h _ (Vector.getElem_mem hid)

/-- **After updates alone the selection is right** exactly where no venue was reported healthy
last. -/
theorem soundSelection_iff (failoverPolicy : FailoverPolicy) (statuses : List VenueStatus) :
    ((new failoverPolicy).updateAll statuses).SoundSelection ↔ NoneHealthy statuses := by
  have hcount := activeCount_updateAll statuses (new failoverPolicy)
  rw [noneHealthy_iff failoverPolicy]
  constructor
  · intro h v hv
    rw [← Bool.not_eq_true]
    exact fun hhealthy => not_soundSelection_of_healthy hcount hv hhealthy h
  · exact soundSelection_of_none hcount

/-- The updates of the source's test: one venue, connected and of full health. -/
theorem not_forall_soundSelection :
    ¬ ∀ (failoverPolicy : FailoverPolicy) (statuses : List VenueStatus),
      (∀ status ∈ statuses, status.venueId < maxVenues) →
      ((new failoverPolicy).updateAll statuses).SoundSelection := by
  intro h
  let status : VenueStatus := ⟨1, true, 1000000, 500, 100⟩
  have hsound := h .immediate [status] (by decide)
  refine not_soundSelection_of_healthy (activeCount_updateAll _ _) (v := status) ?_ (by decide)
    hsound
  exact Vector.mem_iff_getElem.mpr ⟨1, by decide, getElem_updateAll (by decide) _ _⟩

/-! ## Taking turns -/

instance : NeZero maxVenues := ⟨by decide⟩

/-- The venue in a row of the table is healthy. -/
def healthyAt (lb : LoadBalancer) (i : Fin maxVenues) : Bool := (lb.venueStatuses.get i).isHealthy

/-- The rows of the healthy venues, in the order in which the cursor comes to them. -/
def queue (lb : LoadBalancer) : List (Fin maxVenues) :=
  RoundRobin.waiting lb.healthyAt lb.rrIndex

/-- The load balancer after some calls of `select_round_robin`. -/
def afterTurns : Nat → LoadBalancer → LoadBalancer
  | 0, lb => lb
  | m + 1, lb => (afterTurns m lb).selectRoundRobin.2

/-- The loop of `select_round_robin` finds the first healthy row of a turn. -/
theorem nextHealthy_eq (lb : LoadBalancer) :
    nextHealthy lb.venueStatuses maxVenues lb.rrIndex = lb.queue.head? := by
  have hloop : ∀ rounds start : Nat, nextHealthy lb.venueStatuses rounds start =
      ((List.range' start rounds).map (Fin.ofNat maxVenues)).find? lb.healthyAt := by
    intro rounds
    induction rounds with
    | zero => intro start; rfl
    | succ rounds ih =>
        intro start
        rw [List.range'_succ, List.map_cons, List.find?_cons, ← ih (start + 1)]
        cases hhealthy : lb.healthyAt (Fin.ofNat maxVenues start) with
        | true => exact if_pos hhealthy
        | false => exact if_neg (Bool.eq_false_iff.mp hhealthy)
  rw [hloop, queue, RoundRobin.head?_waiting, RoundRobin.turn_eq_map]

/-- With a count the first of the queue is selected. -/
theorem selectRoundRobin_of_counted {lb : LoadBalancer} (h : lb.activeCount ≠ 0) :
    lb.selectRoundRobin.1 =
      lb.queue.head?.map fun i => (lb.venueStatuses.get i).decision := by
  unfold selectRoundRobin
  rw [if_neg h, nextHealthy_eq]
  cases lb.queue.head? <;> rfl

/-- **A selection** leaves the table and the count, and moves the first row to the end of the
queue. -/
theorem selectRoundRobin_step {lb : LoadBalancer} (h : lb.activeCount ≠ 0) :
    lb.selectRoundRobin.2.venueStatuses = lb.venueStatuses ∧
      lb.selectRoundRobin.2.activeCount = lb.activeCount ∧
      lb.selectRoundRobin.2.queue = lb.queue.rotate 1 := by
  unfold selectRoundRobin
  rw [if_neg h, nextHealthy_eq]
  cases hhead : lb.queue.head? with
  | none =>
      have hempty : lb.queue = [] := List.head?_eq_none_iff.mp hhead
      refine ⟨rfl, rfl, ?_⟩
      dsimp only
      rw [hempty, List.rotate_nil]
  | some i =>
      exact ⟨rfl, rfl, (RoundRobin.waiting_mod _ _).trans (RoundRobin.waiting_next hhead)⟩

/-- **After some calls** the queue has been rotated as often. -/
theorem queue_afterTurns {lb : LoadBalancer} (h : lb.activeCount ≠ 0) (m : Nat) :
    (afterTurns m lb).venueStatuses = lb.venueStatuses ∧
      (afterTurns m lb).activeCount = lb.activeCount ∧
      (afterTurns m lb).queue = lb.queue.rotate m := by
  induction m with
  | zero => exact ⟨rfl, rfl, (List.rotate_zero _).symm⟩
  | succ m ih =>
      obtain ⟨htable, hcount, hqueue⟩ := ih
      obtain ⟨htable', hcount', hqueue'⟩ := selectRoundRobin_step (hcount ▸ h)
      refine ⟨htable'.trans htable, hcount'.trans hcount, hqueue'.trans ?_⟩
      rw [hqueue, List.rotate_rotate]

/-- What a later call selects. -/
theorem selectRoundRobin_afterTurns {lb : LoadBalancer} (h : lb.activeCount ≠ 0) (m : Nat) :
    (afterTurns m lb).selectRoundRobin.1 =
      (lb.queue.rotate m).head?.map fun i => (lb.venueStatuses.get i).decision := by
  obtain ⟨htable, hcount, hqueue⟩ := queue_afterTurns h m
  rw [selectRoundRobin_of_counted (hcount ▸ h), hqueue, htable]

/-- The rows that take turns are those of the healthy venues, each once. -/
theorem map_queue_perm (lb : LoadBalancer) :
    (lb.queue.map fun i => lb.venueStatuses.get i).Perm lb.getHealthyVenues := by
  have htable : (List.finRange maxVenues).map lb.venueStatuses.get = lb.venueStatuses.toList := by
    refine List.ext_getElem (by simp) fun i _ _ => ?_
    simp [Vector.get]
  have hrows : ((List.finRange maxVenues).filter lb.healthyAt).map lb.venueStatuses.get =
      lb.getHealthyVenues := by
    rw [getHealthyVenues, ← htable, List.filter_map]
    rfl
  exact hrows ▸ (RoundRobin.waiting_perm lb.healthyAt lb.rrIndex).map lb.venueStatuses.get

section Turns

variable (lb : LoadBalancer) (hcount : lb.activeCount = lb.getHealthyVenues.length) (m : Nat)

/-- The queue has one row for every healthy venue. -/
theorem length_rotate_queue : (lb.queue.rotate m).length = lb.getHealthyVenues.length := by
  rw [List.length_rotate, ← lb.map_queue_perm.length_eq, List.length_map]

include hcount in
/-- As many calls as there are healthy venues answer with the decisions for the rows that wait,
in their order. -/
theorem map_selectRoundRobin (hhealthy : 1 ≤ lb.getHealthyVenues.length) :
    ((List.range lb.getHealthyVenues.length).map fun j =>
        (afterTurns (m + j) lb).selectRoundRobin.1) =
      (lb.queue.rotate m).map fun i => some (lb.venueStatuses.get i).decision := by
  have hactive : lb.activeCount ≠ 0 := by omega
  calc ((List.range lb.getHealthyVenues.length).map fun j =>
        (afterTurns (m + j) lb).selectRoundRobin.1)
      = ((List.range (lb.queue.rotate m).length).map fun j =>
          ((lb.queue.rotate m).rotate j).head?).map
          (Option.map fun i => (lb.venueStatuses.get i).decision) := by
        rw [lb.length_rotate_queue m, List.map_map]
        refine List.map_congr_left fun j _ => ?_
        rw [selectRoundRobin_afterTurns hactive, Function.comp_apply, List.rotate_rotate]
    _ = (lb.queue.rotate m).map fun i => some (lb.venueStatuses.get i).decision := by
        rw [RoundRobin.map_head?_rotate, List.map_map]
        rfl

include hcount in
/-- Their decisions are those for the healthy venues, each once. -/
theorem selectRoundRobin_perm (hhealthy : 1 ≤ lb.getHealthyVenues.length) :
    ((List.range lb.getHealthyVenues.length).map fun j =>
        (afterTurns (m + j) lb).selectRoundRobin.1).Perm
      (lb.getHealthyVenues.map fun v => some v.decision) := by
  rw [lb.map_selectRoundRobin hcount m hhealthy]
  calc ((lb.queue.rotate m).map fun i => some (lb.venueStatuses.get i).decision)
      |>.Perm (lb.queue.map fun i => some (lb.venueStatuses.get i).decision) :=
        (List.rotate_perm _ _).map _
    _ = (lb.queue.map fun i => lb.venueStatuses.get i).map fun v => some v.decision := by
        rw [List.map_map]
        rfl
    _ |>.Perm (lb.getHealthyVenues.map fun v => some v.decision) := lb.map_queue_perm.map _

end Turns

/-- **Round robin is fair**: after any calls, the next calls, as many as there are healthy
venues, select each of them once, by its decision and by its id, and the selections repeat with
that period. -/
theorem roundRobin_fair (lb : LoadBalancer) (hhealthy : 1 ≤ lb.getHealthyVenues.length)
    (hcount : lb.activeCount = lb.getHealthyVenues.length) (m : Nat) :
    ((List.range lb.getHealthyVenues.length).map fun j =>
        (afterTurns (m + j) lb).selectRoundRobin.1).Perm
      (lb.getHealthyVenues.map fun v => some v.decision) ∧
    ((List.range lb.getHealthyVenues.length).map fun j =>
        (afterTurns (m + j) lb).selectRoundRobin.1.map (·.venueId)).Perm
      (lb.getHealthyVenues.map fun v => some v.venueId) ∧
    (afterTurns (m + lb.getHealthyVenues.length) lb).selectRoundRobin.1 =
      (afterTurns m lb).selectRoundRobin.1 := by
  have hperm := lb.selectRoundRobin_perm hcount m hhealthy
  refine ⟨hperm, ?_, ?_⟩
  · have hids := hperm.map (Option.map (·.venueId))
    rw [List.map_map, List.map_map] at hids
    exact hids
  · have hactive : lb.activeCount ≠ 0 := by omega
    rw [selectRoundRobin_afterTurns hactive, selectRoundRobin_afterTurns hactive,
      ← List.rotate_rotate, ← lb.length_rotate_queue m, List.rotate_length]

/-- Three of the venues are healthy, and the cursor stands between them. -/
def threeHealthy : LoadBalancer :=
  { ((new .roundRobin).updateAll [⟨30, true, 100, 5, 90⟩, ⟨2, true, 100, 5, 50⟩,
      ⟨4, false, 100, 5, 90⟩, ⟨7, true, 100, 5, 80⟩]).updateActiveCount with rrIndex := 5 }

/-- After one call the next three select all three, and the three after them the same. -/
theorem roundRobin_fair_threeHealthy :
    1 ≤ threeHealthy.getHealthyVenues.length ∧
      threeHealthy.activeCount = threeHealthy.getHealthyVenues.length ∧
      ((List.range threeHealthy.getHealthyVenues.length).map fun j =>
          (afterTurns (1 + j) threeHealthy).selectRoundRobin.1).Perm
        (threeHealthy.getHealthyVenues.map fun v => some v.decision) ∧
      ((List.range threeHealthy.getHealthyVenues.length).map fun j =>
          (afterTurns (1 + j) threeHealthy).selectRoundRobin.1.map (·.venueId)).Perm
        (threeHealthy.getHealthyVenues.map fun v => some v.venueId) ∧
      (afterTurns (1 + threeHealthy.getHealthyVenues.length) threeHealthy).selectRoundRobin.1 =
        (afterTurns 1 threeHealthy).selectRoundRobin.1 :=
  have hhealthy : 1 ≤ threeHealthy.getHealthyVenues.length := by decide
  ⟨hhealthy, rfl, roundRobin_fair threeHealthy hhealthy rfl 1⟩

end LoadBalancer

end StopTrading.Gateway
