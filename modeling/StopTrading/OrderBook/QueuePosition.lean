import StopTrading.OrderBook.L3Tracker
import Mathlib.Data.List.Dedup
import Mathlib.Data.List.Nodup

/-!
# The queue position of an order

A level queue of the tracker is never cleaned: it is the list of all ids that were let in
at the level (`Logged.queue_eq`), and whoever reads it looks every id up in the map of the
orders.  An id that comes back, after a removal or at another price, is then found at two
places.  So the queue positions and the level lists are right exactly in the runs in which
every order that is let in has an id that was never let in before, and in which the sizes
ahead of an order fit a `u64` (`positioned_iff_fresh`).

A run carries the log of the orders that were let in since the tracker was last cleared.

### What is load-bearing

A queue is a list of ids, never cleaned, and what an id means is looked up when the queue is
read.  So a queue is the list of all insertions at its level (`Logged`, in every run), and
reading it is reading the log.  As long as no id comes twice, each tracked order is at one place
of the log, with its level (`Settled`), and the sizes of the tracked orders before it are what is
ahead of it.

An id that comes again is at two places.  If it comes back to its level the loop stops at the
first, where others are missing that are ahead of it now; if it comes to another level it stays
in the list of the old one.  `id_new_of_positioned` shows that one of the two promises is broken
in that very state.
-/

namespace StopTrading.Book

open Transition

/-- A tracker, and the orders let in since it was last cleared. -/
structure TrackerRun where
  tracker : L3Tracker
  log : List QueuePosition

namespace TrackerRun

open L3Tracker

/-- A new tracker. -/
def init (maxMemoryMb : Nat) : TrackerRun := ⟨.new maxMemoryMb, []⟩

/-- One call. -/
def step (r : TrackerRun) (c : Call) : Option TrackerRun :=
  some
    { tracker := r.tracker.apply c
      log :=
        match c with
        | .insertOrder position _ => if r.tracker.HasRoom then r.log ++ [position] else r.log
        | .clear => []
        | _ => r.log }

/-! ## What the tracker promises -/

/-- The tracked orders at a level. -/
def ordersAt (r : TrackerRun) (key : LevelKey) : List QueuePosition :=
  (r.tracker.orders.entries.map fun e => e.2).filter fun q => q.level = key

/-- The ids by their latest insertion. -/
def arrivals (r : TrackerRun) : List Nat := (r.log.map QueuePosition.orderId).dedup

/-- The tracked orders at a level whose latest insertion came before that of an id. -/
def aheadOf (r : TrackerRun) (key : LevelKey) (orderId : Nat) : List QueuePosition :=
  ((r.arrivals.takeWhile fun id => id ≠ orderId).filterMap r.tracker.orders.lookup).filter
    fun q => q.level = key

/-- The size ahead of an id at a level. -/
def sizeAhead (r : TrackerRun) (key : LevelKey) (orderId : Nat) : Nat :=
  ((r.aheadOf key orderId).map QueuePosition.remainingSize).sum

/-- **The estimate of every tracked order is the size ahead of it, and every level list
has the orders of the level, each once.** -/
structure Positioned (r : TrackerRun) : Prop where
  /-- the estimate is the size ahead -/
  estimate : ∀ id q, r.tracker.orders.lookup id = some q →
    r.tracker.estimateQueuePosition q.level id = r.sizeAhead q.level id
  /-- and a level has its orders -/
  levelOrders : ∀ key, (r.tracker.getLevelOrders key).Perm (r.ordersAt key)

/-- **An id that is let in was not let in before, and the sizes fit.** -/
structure Fresh (r : TrackerRun) (c : Call) (r' : TrackerRun) : Prop where
  /-- its id is new -/
  id_new : ∀ position now, c = .insertOrder position now → r.tracker.HasRoom →
    position.orderId ∉ r.log.map QueuePosition.orderId
  /-- and no size ahead overflows -/
  fits : ∀ id q, r'.tracker.orders.lookup id = some q → r'.sizeAhead q.level id < 2 ^ 64

/-! ## The queues and the log -/

/-- **What holds in every run**: a queue has the ids let in at its level, in order, and
tracked orders go by their own ids. -/
structure Logged (r : TrackerRun) : Prop where
  /-- a queue is the log at its level -/
  queue_eq : ∀ key, r.tracker.queue key =
    (r.log.filter fun p => p.level = key).map QueuePosition.orderId
  /-- and orders go by their ids -/
  keyed : ∀ id q, r.tracker.orders.lookup id = some q → q.orderId = id

/-- **What holds in the runs without a repeated id**: a tracked order rests where its id
was let in. -/
structure Settled (r : TrackerRun) : Prop extends Logged r where
  nodup : (r.log.map QueuePosition.orderId).Nodup
  placed : ∀ id q, r.tracker.orders.lookup id = some q →
    ∃ p ∈ r.log, p.orderId = id ∧ p.level = q.level

/-- A tracker without orders. -/
theorem settled_of_empty {r : TrackerRun} (horders : r.tracker.orders = ∅)
    (hlevels : r.tracker.levelOrders = ∅) (hlog : r.log = []) : r.Settled := by
  have hvacant : ∀ id q, r.tracker.orders.lookup id ≠ some q := by
    intro id q
    rw [horders]
    nofun
  refine ⟨⟨fun key => ?_, fun id q hq => absurd hq (hvacant id q)⟩, ?_,
    fun id q hq => absurd hq (hvacant id q)⟩
  · rw [queue, hlevels, hlog]
    rfl
  · rw [hlog]
    exact List.nodup_nil

/-- One step of a run by what the call does. -/
theorem step_cases {r r' : TrackerRun} {c : Call} (hstep : r.step c = some r') :
    (∃ position now, c = .insertOrder position now ∧ r.tracker.HasRoom ∧
        r.tracker.Inserted position r'.tracker ∧ r'.log = r.log ++ [position]) ∨
      (r'.tracker = r.tracker.clear ∧ r'.log = [] ∧ ∀ position now, c ≠ .insertOrder position now) ∨
      (r.tracker.Reduced r'.tracker ∧ r'.log = r.log ∧
        ∀ position now, c = .insertOrder position now → ¬ r.tracker.HasRoom) := by
  cases hstep
  obtain ⟨position, now, rfl, hroom, hinserted⟩ | ⟨position, now, rfl, hfull, hsame⟩ |
    ⟨rfl, hclear⟩ | ⟨hother, hclear, hreduced⟩ := apply_cases r.tracker c
  · exact .inl ⟨position, now, rfl, hroom, hinserted, if_pos hroom⟩
  · refine .inr (.inr ⟨?_, if_neg hfull, ?_⟩)
    · rw [hsame]
      exact .refl _
    · rintro _ _ _
      exact hfull
  · exact .inr (.inl ⟨hclear, rfl, nofun⟩)
  · refine .inr (.inr ⟨hreduced, ?_, fun position now h => absurd h (hother position now)⟩)
    cases c with
    | insertOrder position now => exact absurd rfl (hother position now)
    | clear => exact absurd rfl hclear
    | updateOrderSize | removeOrder | purgeStale => rfl

/-- Letting an order in keeps the queues in step with the log. -/
theorem Logged.inserted {r r' : TrackerRun} (inv : r.Logged) {position : QueuePosition}
    (h : r.tracker.Inserted position r'.tracker) (hlog : r'.log = r.log ++ [position]) :
    r'.Logged := by
  refine ⟨fun key => ?_, fun id q hq => ?_⟩
  · rw [hlog, List.filter_append, List.map_append]
    by_cases hkey : key = position.level
    · subst hkey
      rw [h.queue_self, inv.queue_eq, List.filter_cons_of_pos (by simp)]
      rfl
    · rw [h.queue_of_ne key hkey, inv.queue_eq, List.filter_cons_of_neg (by simp [Ne.symm hkey])]
      exact (List.append_nil _).symm
  · obtain ⟨stored, hid, -, horders⟩ := h.stored
    rw [horders] at hq
    by_cases hsame : id = position.orderId
    · subst hsame
      rw [AList.lookup_insert] at hq
      cases hq
      exact hid
    · rw [AList.lookup_insert_ne hsame] at hq
      exact inv.keyed id q hq

/-- A call that reduces keeps the queues in step with the log. -/
theorem Logged.reduced {r r' : TrackerRun} (inv : r.Logged) (h : r.tracker.Reduced r'.tracker)
    (hlog : r'.log = r.log) : r'.Logged := by
  refine ⟨fun key => ?_, fun id q' hq' => ?_⟩
  · rw [h.queue_eq, inv.queue_eq, hlog]
  · obtain ⟨q, hq, -, hid⟩ := h.from_tracked id q' hq'
    exact hid.trans (inv.keyed id q hq)

/-- **A new id** settles at its level. -/
theorem Settled.inserted {r r' : TrackerRun} (inv : r.Settled) {position : QueuePosition}
    (h : r.tracker.Inserted position r'.tracker) (hlog : r'.log = r.log ++ [position])
    (hnew : position.orderId ∉ r.log.map QueuePosition.orderId) : r'.Settled := by
  refine ⟨inv.toLogged.inserted h hlog, ?_, fun id q hq => ?_⟩
  · rw [hlog, List.map_append, List.map_singleton]
    refine List.nodup_append'.mpr ⟨inv.nodup, List.nodup_singleton _, ?_⟩
    exact List.disjoint_singleton.mpr hnew
  · obtain ⟨stored, -, hlevel, horders⟩ := h.stored
    rw [horders] at hq
    rw [hlog]
    by_cases hsame : id = position.orderId
    · subst hsame
      rw [AList.lookup_insert] at hq
      cases hq
      exact ⟨position, by simp, rfl, hlevel.symm⟩
    · rw [AList.lookup_insert_ne hsame] at hq
      obtain ⟨p, hp, hid, hat⟩ := inv.placed id q hq
      exact ⟨p, List.mem_append_left _ hp, hid, hat⟩

/-- A call that reduces leaves the rest where it is, -/
theorem Settled.reduced {r r' : TrackerRun} (inv : r.Settled) (h : r.tracker.Reduced r'.tracker)
    (hlog : r'.log = r.log) : r'.Settled := by
  refine ⟨inv.toLogged.reduced h hlog, hlog ▸ inv.nodup, fun id q' hq' => ?_⟩
  obtain ⟨q, hq, hlevel, -⟩ := h.from_tracked id q' hq'
  obtain ⟨p, hp, hid, hat⟩ := inv.placed id q hq
  exact ⟨p, hlog ▸ hp, hid, hat.trans hlevel.symm⟩

/-- and a fresh call keeps orders where they were let in. -/
theorem Settled.step {r r' : TrackerRun} {c : Call} (inv : r.Settled)
    (hstep : r.step c = some r') (hfresh : r.Fresh c r') : r'.Settled := by
  obtain ⟨position, now, rfl, hroom, hinserted, hlog⟩ | ⟨htracker, hlog, -⟩ |
    ⟨hreduced, hlog, -⟩ := step_cases hstep
  · exact inv.inserted hinserted hlog (hfresh.id_new position now rfl hroom)
  · exact settled_of_empty (htracker ▸ rfl) (htracker ▸ rfl) hlog
  · exact inv.reduced hreduced hlog

/-! ## Reading a queue -/

/-- **The loop** finds an id that is in the queue, at the size of the tracked orders before
it. -/
theorem positionLoop_append {orders : AList fun _ : Nat => QueuePosition} {orderId : Nat}
    {before : List Nat} (hbefore : orderId ∉ before) (after : List Nat) (position : Nat) :
    (positionLoop orders orderId position (before ++ orderId :: after)).map (· % 2 ^ 64) =
      some ((position +
        ((before.filterMap orders.lookup).map QueuePosition.remainingSize).sum) % 2 ^ 64) := by
  induction before generalizing position with
  | nil => simp [positionLoop]
  | cons oid before ih =>
      rw [List.mem_cons, not_or] at hbefore
      rw [List.cons_append, positionLoop, if_neg (Ne.symm hbefore.1)]
      cases hlookup : orders.lookup oid with
      | none => simp only [ih hbefore.2, List.filterMap_cons, hlookup]
      | some q =>
          simp only [ih hbefore.2, List.filterMap_cons, hlookup, List.map_cons, List.sum_cons,
            Nat.mod_add_mod, Nat.add_assoc]

/-- The position the loop returns is a word. -/
theorem positionLoop_lt {orders : AList fun _ : Nat => QueuePosition} {orderId : Nat}
    {queue : List Nat} {position found : Nat} (hposition : position < 2 ^ 64)
    (h : positionLoop orders orderId position queue = some found) : found < 2 ^ 64 := by
  induction queue generalizing position with
  | nil => cases h
  | cons oid queue ih =>
      rw [positionLoop] at h
      split at h
      · cases h
        exact hposition
      · cases hlookup : orders.lookup oid with
        | none =>
            rw [hlookup] at h
            exact ih hposition h
        | some q =>
            rw [hlookup] at h
            exact ih (Nat.mod_lt _ (by norm_num)) h

/-- **The estimate of an id in a queue**: the tracked sizes before it, as a word. -/
theorem estimate_of_split {t : L3Tracker} {key : LevelKey} {orderId : Nat}
    {before after : List Nat} (hqueue : t.queue key = before ++ orderId :: after)
    (hbefore : orderId ∉ before) :
    t.estimateQueuePosition key orderId =
      ((before.filterMap t.orders.lookup).map QueuePosition.remainingSize).sum % 2 ^ 64 := by
  unfold estimateQueuePosition
  unfold queue at hqueue
  cases hlookup : t.levelOrders.lookup key with
  | none =>
      rw [hlookup] at hqueue
      exact absurd hqueue.symm (by simp)
  | some ids =>
      rw [hlookup] at hqueue
      obtain rfl : ids = _ := hqueue
      have hloop : (positionLoop t.orders orderId 0 (before ++ orderId :: after)).map _ = _ :=
        positionLoop_append hbefore after 0
      cases hfound : positionLoop t.orders orderId 0 (before ++ orderId :: after) with
      | none =>
          rw [hfound] at hloop
          cases hloop
      | some found =>
          rw [hfound, Option.map_some, Option.some.injEq, Nat.zero_add] at hloop
          have hlt := positionLoop_lt (by norm_num) hfound
          dsimp only
          rw [hfound, Option.getD_some, ← hloop, Nat.mod_eq_of_lt hlt]

/-- Where every tracked id rests at its level of the log, reading the ids of one level is
reading all of them and keeping the level. -/
theorem filterMap_level {orders : AList fun _ : Nat => QueuePosition} {log : List QueuePosition}
    (hplaced : ∀ p ∈ log, ∀ q, orders.lookup p.orderId = some q → q.level = p.level)
    (key : LevelKey) :
    ((log.filter fun p => p.level = key).map QueuePosition.orderId).filterMap orders.lookup =
      ((log.map QueuePosition.orderId).filterMap orders.lookup).filter fun q => q.level = key := by
  induction log with
  | nil => rfl
  | cons p log ih =>
      rw [List.forall_mem_cons] at hplaced
      rw [List.map_cons]
      by_cases hkey : p.level = key
      · rw [List.filter_cons_of_pos (by simpa using hkey), List.map_cons]
        cases hlookup : orders.lookup p.orderId with
        | none => simp only [List.filterMap_cons, hlookup, ih hplaced.2]
        | some q =>
            have hlevel := hplaced.1 q hlookup
            simp only [List.filterMap_cons, hlookup, ih hplaced.2]
            rw [List.filter_cons_of_pos (by simpa using hlevel.trans hkey)]
      · rw [List.filter_cons_of_neg (by simpa using hkey)]
        cases hlookup : orders.lookup p.orderId with
        | none => simp only [List.filterMap_cons, hlookup, ih hplaced.2]
        | some q =>
            have hlevel := hplaced.1 q hlookup
            simp only [List.filterMap_cons, hlookup, ih hplaced.2]
            rw [List.filter_cons_of_neg (by simpa [hlevel] using hkey)]

/-- In a settled run an id of the log is tracked at its level of the log, if at all. -/
theorem Settled.level_eq {r : TrackerRun} (inv : r.Settled) {p : QueuePosition} (hp : p ∈ r.log)
    {q : QueuePosition} (hq : r.tracker.orders.lookup p.orderId = some q) : q.level = p.level := by
  obtain ⟨p', hp', hid, hlevel⟩ := inv.placed _ q hq
  rw [← hlevel, List.inj_on_of_nodup_map inv.nodup hp' hp hid]

/-- **The estimate in a settled run.** -/
theorem Settled.estimate {r : TrackerRun} (inv : r.Settled) {id : Nat} {q : QueuePosition}
    (hq : r.tracker.orders.lookup id = some q) :
    r.tracker.estimateQueuePosition q.level id = r.sizeAhead q.level id % 2 ^ 64 := by
  obtain ⟨p, hp, rfl, hlevel⟩ := inv.placed id q hq
  obtain ⟨before, after, hsplit⟩ := List.append_of_mem hp
  have hnodup := inv.nodup
  rw [hsplit, List.map_append, List.map_cons] at hnodup
  have hbefore : p.orderId ∉ before.map QueuePosition.orderId := fun hmem =>
    (List.nodup_append'.mp hnodup).2.2 hmem List.mem_cons_self
  have hqueue : r.tracker.queue q.level =
      (before.filter fun p => p.level = q.level).map QueuePosition.orderId ++
        p.orderId :: (after.filter fun p => p.level = q.level).map QueuePosition.orderId := by
    rw [inv.queue_eq, hsplit, List.filter_append, List.map_append,
      List.filter_cons_of_pos (by simpa using hlevel), List.map_cons]
  have hnot : p.orderId ∉ (before.filter fun p => p.level = q.level).map QueuePosition.orderId :=
    fun hmem => hbefore ((List.filter_sublist.map _).subset hmem)
  have harrivals : r.arrivals.takeWhile (fun id => id ≠ p.orderId) =
      before.map QueuePosition.orderId := by
    rw [arrivals, inv.nodup.dedup, hsplit, List.map_append, List.map_cons,
      List.takeWhile_append_of_pos, List.takeWhile_cons_of_neg (by simp), List.append_nil]
    intro id hid
    exact decide_eq_true fun h => hbefore (h ▸ hid)
  rw [estimate_of_split hqueue hnot, sizeAhead, aheadOf, harrivals, filterMap_level]
  intro p' hp' q' hq'
  exact inv.level_eq (by rw [hsplit]; exact List.mem_append_left _ hp') hq'

/-- The tracked orders, by the log. -/
theorem Settled.tracked_perm {r : TrackerRun} (inv : r.Settled) :
    ((r.log.map QueuePosition.orderId).filterMap r.tracker.orders.lookup).Perm
      (r.tracker.orders.entries.map fun e => e.2) := by
  have hkeys : (r.tracker.orders.entries.map fun e => e.2).map QueuePosition.orderId =
      r.tracker.orders.keys := by
    rw [List.map_map]
    refine List.map_congr_left fun e he => ?_
    exact inv.keyed e.1 e.2 (AList.mem_lookup_iff.mpr he)
  refine (List.perm_ext_iff_of_nodup ?_ ?_).mpr fun q => ?_
  · refine inv.nodup.filterMap fun id id' q hq hq' => ?_
    exact (inv.keyed id q hq).symm.trans (inv.keyed id' q hq')
  · exact List.Nodup.of_map QueuePosition.orderId (hkeys ▸ r.tracker.orders.keys_nodup)
  · rw [List.mem_filterMap, List.mem_map]
    constructor
    · rintro ⟨id, -, hq⟩
      exact ⟨⟨id, q⟩, AList.mem_lookup_iff.mp hq, rfl⟩
    · rintro ⟨⟨id, q⟩, he, rfl⟩
      have hq := AList.mem_lookup_iff.mpr he
      obtain ⟨p, hp, hid, -⟩ := inv.placed id q hq
      exact ⟨id, hid ▸ List.mem_map_of_mem hp, hq⟩

/-- **The level lists in a settled run.** -/
theorem Settled.levelOrders {r : TrackerRun} (inv : r.Settled) (key : LevelKey) :
    (r.tracker.getLevelOrders key).Perm (r.ordersAt key) := by
  rw [getLevelOrders, inv.queue_eq, filterMap_level fun p hp q hq => inv.level_eq hp hq]
  exact inv.tracked_perm.filter _

/-! ## A repeated id -/

/-- **An id that comes back is found twice.** -/
theorem Settled.id_new_of_positioned {r r' : TrackerRun} (inv : r.Settled)
    {position : QueuePosition} (h : r.tracker.Inserted position r'.tracker)
    (hlog : r'.log = r.log ++ [position]) (hpositioned : r'.Positioned) :
    position.orderId ∉ r.log.map QueuePosition.orderId := by
  intro hmem
  obtain ⟨p, hp, hid⟩ := List.mem_map.mp hmem
  obtain ⟨stored, -, hlevel, horders⟩ := h.stored
  have hstored : r'.tracker.orders.lookup position.orderId = some stored := by
    rw [horders, AList.lookup_insert]
  have hqueued : position.orderId ∈ r.tracker.queue p.level := by
    rw [inv.queue_eq]
    exact List.mem_map.mpr ⟨p, List.mem_filter.mpr ⟨hp, by simp⟩, hid⟩
  have hperm := hpositioned.levelOrders p.level
  by_cases hsame : p.level = position.level
  · -- The queue of the level has the id twice.
    have hnodup : (r'.tracker.getLevelOrders p.level).Nodup := by
      refine hperm.nodup_iff.mpr (List.Nodup.filter _ ?_)
      refine List.Nodup.of_map QueuePosition.orderId ?_
      rw [List.map_map]
      refine (List.map_congr_left fun e he => ?_) ▸ r'.tracker.orders.keys_nodup
      exact ((inv.toLogged.inserted h hlog).keyed e.1 e.2 (AList.mem_lookup_iff.mpr he)).symm
    rw [getLevelOrders, hsame, h.queue_self, List.filterMap_append] at hnodup
    refine (List.nodup_append'.mp hnodup).2.2
      (List.mem_filterMap.mpr ⟨position.orderId, hsame ▸ hqueued, hstored⟩) ?_
    exact List.mem_filterMap.mpr ⟨position.orderId, List.mem_singleton_self _, hstored⟩
  · -- The queue of the old level leads to the new one.
    have hfound : stored ∈ r'.tracker.getLevelOrders p.level := by
      refine List.mem_filterMap.mpr ⟨position.orderId, ?_, hstored⟩
      rw [h.queue_of_ne p.level hsame]
      exact hqueued
    have hat := (List.mem_filter.mp (hperm.mem_iff.mp hfound)).2
    exact hsame ((of_decide_eq_true hat).symm.trans hlevel)

/-! ## Runs -/

/-- A settled run whose sizes fit. -/
structure Inv (r : TrackerRun) : Prop extends Settled r where
  fits : ∀ id q, r.tracker.orders.lookup id = some q → r.sizeAhead q.level id < 2 ^ 64

/-- In a settled run whose sizes fit, positions are right. -/
theorem Inv.positioned {r : TrackerRun} (inv : r.Inv) : r.Positioned := by
  refine ⟨fun id q hq => ?_, inv.toSettled.levelOrders⟩
  rw [inv.toSettled.estimate hq, Nat.mod_eq_of_lt (inv.fits id q hq)]

/-- **A call that leaves positions right** was fresh. -/
theorem Inv.fresh_of_positioned {r r' : TrackerRun} {c : Call} (inv : r.Inv)
    (hstep : r.step c = some r') (hpositioned : r'.Positioned) : r.Fresh c r' := by
  have hnew : ∀ position now, c = .insertOrder position now → r.tracker.HasRoom →
      position.orderId ∉ r.log.map QueuePosition.orderId := by
    rintro position now rfl hroom
    obtain ⟨position', now', heq, -, hinserted, hlog⟩ | ⟨-, -, hother⟩ | ⟨-, -, hfull⟩ :=
      step_cases hstep
    · cases heq
      exact inv.toSettled.id_new_of_positioned hinserted hlog hpositioned
    · exact absurd rfl (hother position now)
    · exact absurd hroom (hfull position now rfl)
  have hsettled : r'.Settled := by
    obtain ⟨position, now, rfl, hroom, hinserted, hlog⟩ | ⟨htracker, hlog, -⟩ |
      ⟨hreduced, hlog, -⟩ := step_cases hstep
    · exact inv.toSettled.inserted hinserted hlog (hnew position now rfl hroom)
    · exact settled_of_empty (htracker ▸ rfl) (htracker ▸ rfl) hlog
    · exact inv.toSettled.reduced hreduced hlog
  refine ⟨hnew, fun id q hq => ?_⟩
  rw [← hpositioned.estimate id q hq, hsettled.estimate hq]
  exact Nat.mod_lt _ (by norm_num)

/-- A new tracker has no orders. -/
theorem inv_init (maxMemoryMb : Nat) : Inv (init maxMemoryMb) :=
  ⟨settled_of_empty rfl rfl rfl, fun _ _ h => absurd h (by simp [init, new])⟩

/-- Right positions come of fresh orders. -/
theorem fresh_of_allStates {maxMemoryMb : Nat} {calls : List Call}
    (h : AllStates step Positioned (init maxMemoryMb) calls) :
    AllSteps step Fresh (init maxMemoryMb) calls :=
  h.allSteps
    (fun _ _ _ (inv : Inv _) hstep hfresh => ⟨inv.toSettled.step hstep hfresh, hfresh.fits⟩)
    (fun _ _ _ (inv : Inv _) hstep h => inv.fresh_of_positioned hstep h) (inv_init maxMemoryMb)

/-- **When the queue positions are right.**  In every state of a run, exactly when every
order that is let in has an id that was not let in before (since the tracker was last
cleared) and the sizes ahead of every tracked order fit a word. -/
theorem positioned_iff_fresh (maxMemoryMb : Nat) (calls : List Call) :
    AllSteps step Fresh (init maxMemoryMb) calls ↔
      AllStates step Positioned (init maxMemoryMb) calls :=
  ⟨AllStates.of_invariant (fun _ (inv : Inv _) => inv.positioned)
    (fun _ _ _ (inv : Inv _) hstep hfresh => ⟨inv.toSettled.step hstep hfresh, hfresh.fits⟩)
    (inv_init maxMemoryMb), fresh_of_allStates⟩

/-- **An order moved to another price** stays in the list of the old level. -/
theorem not_forall_positioned :
    ¬ ∀ (maxMemoryMb : Nat) (calls : List Call),
      AllStates step Positioned (init maxMemoryMb) calls := by
  intro h
  have hsteps := fresh_of_allStates
    (h 100 [.insertOrder (unitBid 1 50000) 1, .removeOrder 1, .insertOrder (unitBid 1 50001) 2])
  obtain ⟨-, -, hthird, -⟩ := hsteps
  exact hthird.id_new (unitBid 1 50001) 2 rfl (by decide) (by decide)

end TrackerRun

end StopTrading.Book
