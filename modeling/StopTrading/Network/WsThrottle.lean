import StopTrading.Library.FiniteMap
import StopTrading.Library.FloatOps

/-!
# The websocket throttler

`WsThrottler::process_message` asks a token bucket for one token.  Without a token the
message is forwarded if its priority is critical or high and is counted as dropped if it is
not.  With a token it is forwarded, except for an order-book update of level 2 that names a
symbol: that one is handed to the aggregation of its symbol.

An aggregation has no place for what it is handed.  It is created without bids and asks and
nothing ever puts some there, so neither the end of its window nor the flush emits it
(`Settled`).  A throttler therefore accounts for the messages it was given exactly if none of
them reached an aggregation (`conserved_iff_noneAggregated`).

The output channel is connected and has room: what is sent to it is appended to a list.  The
readings of the clock are arbitrary, and the floating-point operations of the refill are
uninterpreted.

### Design decisions

A message is accounted for if it is forwarded, counted as dropped, or carried by an aggregate
that is emitted.  What it would mean for an aggregate to carry a message's data is left open
(`HasData`, any relation), because the source has nothing that could: the result holds for every
reading of it.

### What is load-bearing

`Settled` is an invariant of the whole throttler, and says that aggregations are and stay empty.
So handling a message has three outcomes (`Handled`), of which the last sends nothing and counts
nothing, and what it has lost never comes back: neither the end of a window nor the flush emits
what is empty.
-/

namespace StopTrading.Network.WsThrottle

universe u

variable {F : Type u}

/-- `MessagePriority`. -/
inductive MessagePriority where
  | critical | high | normal | low
  deriving Repr, DecidableEq

/-- The value of a priority as a number: the smaller, the more urgent. -/
def MessagePriority.toNat : MessagePriority → Nat
  | .critical => 0
  | .high => 1
  | .normal => 2
  | .low => 3

/-- `MessageType`. -/
inductive MessageType where
  | trade | orderBookL1 | orderBookL2 | orderBookL3 | ticker
  | accountUpdate | orderUpdate | fill | heartbeat | unknown
  deriving Repr, DecidableEq

/-- `WsMessage`. -/
structure WsMessage where
  payload : List UInt8
  priority : MessagePriority
  receivedAt : Nat
  symbol : Option String
  msgType : MessageType
  deriving Repr, DecidableEq

/-! ## The token bucket -/

/-- `TokenBucket`; an instant is a number of nanoseconds. -/
structure TokenBucket (F : Type u) where
  capacity : Nat
  tokens : Nat
  refillRate : F
  lastRefill : Nat

/-- `Duration::as_secs_f64`. -/
def asSecsF64 (ops : FloatOps F) (ns : Nat) : F :=
  ops.add (ops.ofU64 (ns / 1000000000))
    (ops.div (ops.ofU64 (ns % 1000000000)) (ops.lit 1000000000))

namespace TokenBucket

/-- `TokenBucket::new`. -/
def new (capacity : Nat) (refillRate : F) (now : Nat) : TokenBucket F :=
  ⟨capacity, capacity, refillRate, now⟩

/-- `refill`. -/
def refill (ops : FloatOps F) (b : TokenBucket F) (now : Nat) : TokenBucket F :=
  let elapsed := asSecsF64 ops (now - b.lastRefill)
  if ops.lt (ops.lit 0) elapsed = true then
    let refillAmount := ops.toU64 (ops.mul elapsed b.refillRate)
    if refillAmount > 0 then
      { b with
        tokens := min ((b.tokens + refillAmount) % 2 ^ 64) b.capacity
        lastRefill := now }
    else b
  else b

/-- `try_consume`; a check and an update with nothing in between. -/
def tryConsume (ops : FloatOps F) (b : TokenBucket F) (count now : Nat) :
    Bool × TokenBucket F :=
  let b := b.refill ops now
  if b.tokens ≥ count then (true, { b with tokens := b.tokens - count }) else (false, b)

end TokenBucket

/-! ## The throttler -/

/-- `L2Aggregation`. -/
structure L2Aggregation (F : Type u) where
  bids : List (F × F)
  asks : List (F × F)
  lastUpdate : Nat

/-- There is nothing to emit. -/
def L2Aggregation.isEmpty (agg : L2Aggregation F) : Bool := agg.bids.isEmpty && agg.asks.isEmpty

/-- `WsThrottler`; the output channel as the list of what was sent to it. -/
structure WsThrottler (F : Type u) where
  rateLimiter : TokenBucket F
  output : List WsMessage
  droppedCounts : MessagePriority → Nat
  processedCount : Nat
  l2Aggregator : AList fun _ : String => L2Aggregation F
  aggregationWindow : Nat
  aggregationEnabled : Bool

/-- A message on its way in, with the readings of the clock its handling takes: in the
refill, for the age of an aggregation and for the time of its update. -/
structure Arrival where
  msg : WsMessage
  refillNow : Nat
  ageNow : Nat
  updateNow : Nat
  deriving Repr, DecidableEq

namespace WsThrottler

/-- `WsThrottler::new`; the window is 10 ms. -/
def new (ops : FloatOps F) (rateLimitPerSecond burstCapacity now : Nat) : WsThrottler F where
  rateLimiter := .new burstCapacity (ops.ofU64 rateLimitPerSecond) now
  output := []
  droppedCounts := fun _ => 0
  processedCount := 0
  l2Aggregator := ∅
  aggregationWindow := 10000000
  aggregationEnabled := true

/-- A message is sent and counted as processed. -/
def send (t : WsThrottler F) (msg : WsMessage) : WsThrottler F :=
  { t with
    output := t.output ++ [msg]
    processedCount := (t.processedCount + 1) % 2 ^ 64 }

/-- A message is counted as dropped. -/
def countDropped (t : WsThrottler F) (priority : MessagePriority) : WsThrottler F :=
  { t with
    droppedCounts :=
      Function.update t.droppedCounts priority ((t.droppedCounts priority + 1) % 2 ^ 64) }

/-- The message that stands for an aggregation.  Its payload is empty. -/
def aggregatedMsg (symbol : String) (now : Nat) : WsMessage where
  payload := []
  priority := .normal
  receivedAt := now
  symbol := some symbol
  msgType := .orderBookL2

/-- A new aggregation for a symbol. -/
def startAggregation (t : WsThrottler F) (symbol : String) (now : Nat) : WsThrottler F :=
  { t with l2Aggregator := t.l2Aggregator.insert symbol ⟨[], [], now⟩ }

/-- `aggregate_l2_update`.  The message itself is not looked at. -/
def aggregateL2Update (t : WsThrottler F) (symbol : String) (a : Arrival) : WsThrottler F :=
  match t.l2Aggregator.lookup symbol with
  | some agg =>
      if a.ageNow - agg.lastUpdate < t.aggregationWindow then
        { t with
          l2Aggregator := t.l2Aggregator.insert symbol { agg with lastUpdate := a.updateNow } }
      else if agg.isEmpty = false then
        (t.send (aggregatedMsg symbol a.updateNow)).startAggregation symbol a.updateNow
      else t.startAggregation symbol a.updateNow
  | none => t.startAggregation symbol a.updateNow

/-- `process_message`, when the bucket was asked for a token. -/
def handle (t : WsThrottler F) (consumed : Bool) (a : Arrival) : WsThrottler F :=
  if consumed = false then
    if a.msg.priority.toNat ≤ MessagePriority.high.toNat then t.send a.msg
    else t.countDropped a.msg.priority
  else if t.aggregationEnabled = true ∧ a.msg.msgType = .orderBookL2 then
    match a.msg.symbol with
    | some symbol => t.aggregateL2Update symbol a
    | none => t.send a.msg
  else t.send a.msg

/-- `process_message`. -/
def processMessage (ops : FloatOps F) (t : WsThrottler F) (a : Arrival) : WsThrottler F :=
  let (consumed, rateLimiter) := t.rateLimiter.tryConsume ops 1 a.refillNow
  ({ t with rateLimiter := rateLimiter } : WsThrottler F).handle consumed a

/-- `flush_aggregations`: the map is drained and what has levels is sent, without being
counted.  The order of the drain does not matter: nothing ever has levels (`Settled`). -/
def flushAggregations (t : WsThrottler F) (now : Nat) : WsThrottler F :=
  { t with
    output := t.output ++ (t.l2Aggregator.entries.filter fun e => !e.2.isEmpty).map fun e =>
      aggregatedMsg e.1 now
    l2Aggregator := ∅ }

/-- The throttler after a sequence of messages. -/
def processAll (ops : FloatOps F) (t : WsThrottler F) (arrivals : List Arrival) : WsThrottler F :=
  arrivals.foldl (processMessage ops) t

/-! ## What becomes of a message -/

/-- The message reaches the aggregation of its symbol: there is a token for it and it is a
level 2 update that names one. -/
def Aggregated (ops : FloatOps F) (t : WsThrottler F) (a : Arrival) : Prop :=
  1 ≤ (t.rateLimiter.refill ops a.refillNow).tokens ∧ t.aggregationEnabled = true ∧
    a.msg.msgType = .orderBookL2 ∧ a.msg.symbol.isSome = true

instance (ops : FloatOps F) (t : WsThrottler F) (a : Arrival) :
    Decidable (Aggregated ops t a) :=
  inferInstanceAs (Decidable (_ ∧ _))

/-- A message was sent on between two states. -/
def Forwarded (t t' : WsThrottler F) (msg : WsMessage) : Prop :=
  msg ∈ t'.output.drop t.output.length

/-- A message was counted as dropped between two states. -/
def Counted (t t' : WsThrottler F) (msg : WsMessage) : Prop :=
  t'.droppedCounts msg.priority = (t.droppedCounts msg.priority + 1) % 2 ^ 64

/-- A message that stands for an aggregation. -/
def IsAggregate (agg : WsMessage) : Prop :=
  agg.priority = .normal ∧ agg.msgType = .orderBookL2 ∧ agg.symbol.isSome = true

/-- **Nothing is lost silently.**  Every message is forwarded or counted when it is handled,
or an aggregate of its symbol with its data is emitted from then on, the flush included;
`HasData` says when an aggregate has the data of a message.  Critical and high messages are
forwarded. -/
def Conserved (HasData : WsMessage → WsMessage → Prop) (ops : FloatOps F) (start : WsThrottler F)
    (arrivals : List Arrival) (flushNow : Nat) : Prop :=
  ∀ before a after, arrivals = before ++ a :: after →
    let t := start.processAll ops before
    let t' := t.processMessage ops a
    let final := (t'.processAll ops after).flushAggregations flushNow
    (a.msg.priority.toNat ≤ MessagePriority.high.toNat → Forwarded t t' a.msg) ∧
      (Forwarded t t' a.msg ∨ Counted t t' a.msg ∨
        ∃ agg ∈ final.output.drop t.output.length,
          IsAggregate agg ∧ agg.symbol = a.msg.symbol ∧ HasData agg a.msg)

/-- No message reaches an aggregation. -/
def NoneAggregated (ops : FloatOps F) (start : WsThrottler F) (arrivals : List Arrival) : Prop :=
  ∀ before a after, arrivals = before ++ a :: after →
    ¬ Aggregated ops (start.processAll ops before) a

/-! ## One message -/

/-- What is sent is forwarded. -/
theorem send_forwarded (t : WsThrottler F) (msg : WsMessage) : Forwarded t (t.send msg) msg := by
  simp [Forwarded, send]

/-- The bucket with and without a token. -/
theorem tryConsume_one_fst (ops : FloatOps F) (b : TokenBucket F) (now : Nat) :
    (b.tryConsume ops 1 now).1 = decide (1 ≤ (b.refill ops now).tokens) := by
  simp only [TokenBucket.tryConsume]
  split_ifs with h
  · exact (decide_eq_true h).symm
  · exact (decide_eq_false h).symm

/-- **What handling a message does**, after the token bucket was asked. -/
inductive Handled (ops : FloatOps F) (t : WsThrottler F) (a : Arrival) : WsThrottler F → Prop
  | sent (rateLimiter : TokenBucket F)
      (free : ¬ Aggregated ops t a)
      (plain : ¬ IsAggregate a.msg ∨ t.aggregationEnabled = false) :
      Handled ops t a (({ t with rateLimiter := rateLimiter } : WsThrottler F).send a.msg)
  | dropped (rateLimiter : TokenBucket F)
      (free : ¬ Aggregated ops t a)
      (low : ¬ a.msg.priority.toNat ≤ MessagePriority.high.toNat) :
      Handled ops t a
        (({ t with rateLimiter := rateLimiter } : WsThrottler F).countDropped a.msg.priority)
  | aggregated (rateLimiter : TokenBucket F) (symbol : String)
      (taken : Aggregated ops t a) :
      Handled ops t a
        (({ t with rateLimiter := rateLimiter } : WsThrottler F).aggregateL2Update symbol a)

/-- **A message is handled** in one of these ways. -/
theorem processMessage_handled (ops : FloatOps F) (t : WsThrottler F) (a : Arrival) :
    Handled ops t a (t.processMessage ops a) := by
  have hconsumed := tryConsume_one_fst ops t.rateLimiter a.refillNow
  simp only [processMessage, handle]
  split_ifs with hempty hurgent hl2
  · -- no token, critical or high
    have hnone := of_decide_eq_false (hconsumed.symm.trans hempty)
    refine .sent _ (fun h => hnone h.1) (Or.inl fun h => ?_)
    rw [h.1] at hurgent
    exact absurd hurgent (by decide)
  · -- no token, normal or low
    have hnone := of_decide_eq_false (hconsumed.symm.trans hempty)
    exact .dropped _ (fun h => hnone h.1) hurgent
  · -- a token for a level 2 update
    have htoken : 1 ≤ (t.rateLimiter.refill ops a.refillNow).tokens :=
      of_decide_eq_true (hconsumed.symm.trans (Bool.eq_true_of_not_eq_false hempty))
    cases hsymbol : a.msg.symbol with
    | some symbol =>
        exact .aggregated _ symbol ⟨htoken, hl2.1, hl2.2, by rw [hsymbol]; rfl⟩
    | none =>
        refine .sent _ (fun h => ?_) (Or.inl fun h => ?_)
        · exact absurd h.2.2.2 (by rw [hsymbol]; decide)
        · exact absurd h.2.2 (by rw [hsymbol]; decide)
  · -- a token for anything else
    refine .sent _ (fun h => hl2 ⟨h.2.1, h.2.2.1⟩) ?_
    cases henabled : t.aggregationEnabled with
    | true => exact Or.inl fun h => hl2 ⟨henabled, h.2.1⟩
    | false => exact Or.inr rfl

/-! ## Aggregations stay empty -/

/-- **The throttler's invariant**: aggregation is on, no aggregation has levels and no
aggregate was emitted. -/
structure Settled (t : WsThrottler F) : Prop where
  /-- aggregation is on -/
  enabled : t.aggregationEnabled = true
  /-- and has nothing -/
  empty : ∀ symbol agg, t.l2Aggregator.lookup symbol = some agg → agg.isEmpty = true
  /-- and has emitted nothing -/
  output : ∀ msg ∈ t.output, ¬ IsAggregate msg

/-- A new throttler aggregates nothing. -/
theorem settled_new (ops : FloatOps F) (rateLimitPerSecond burstCapacity now : Nat) :
    Settled (new ops rateLimitPerSecond burstCapacity now) where
  enabled := rfl
  empty _ _ h := nomatch h
  output _ h := nomatch h

/-- A new aggregation is empty, -/
theorem Settled.startAggregation {t : WsThrottler F} (h : Settled t) (symbol : String)
    (now : Nat) : Settled (t.startAggregation symbol now) := by
  refine ⟨h.enabled, fun s agg hlookup => ?_, h.output⟩
  rcases (FiniteMap.lookup_insert_iff _ _ _ _ _).mp hlookup with ⟨-, rfl⟩ | ⟨-, hold⟩
  · rfl
  · exact h.empty s agg hold

/-- An update of an aggregation emits nothing and counts nothing. -/
theorem Settled.aggregateL2Update {t : WsThrottler F} (h : Settled t) (symbol : String)
    (a : Arrival) :
    Settled (t.aggregateL2Update symbol a) ∧
      (t.aggregateL2Update symbol a).output = t.output ∧
      (t.aggregateL2Update symbol a).droppedCounts = t.droppedCounts := by
  unfold WsThrottler.aggregateL2Update
  split
  · rename_i agg hagg
    have hempty := h.empty symbol agg hagg
    split_ifs with hwindow hlevels
    · refine ⟨⟨h.enabled, fun s agg' hlookup => ?_, h.output⟩, rfl, rfl⟩
      rcases (FiniteMap.lookup_insert_iff _ _ _ _ _).mp hlookup with ⟨-, rfl⟩ | ⟨-, hold⟩
      · exact hempty
      · exact h.empty s agg' hold
    · exact absurd (hempty.symm.trans hlevels) (by decide)
    · exact ⟨h.startAggregation symbol a.updateNow, rfl, rfl⟩
  · exact ⟨h.startAggregation symbol a.updateNow, rfl, rfl⟩

/-- a message that is sent is no aggregate, -/
theorem Settled.send {t : WsThrottler F} (h : Settled t) {msg : WsMessage}
    (hmsg : ¬ IsAggregate msg) : Settled (t.send msg) := by
  refine ⟨h.enabled, h.empty, fun m hm => ?_⟩
  rcases List.mem_append.mp hm with hold | hnew
  · exact h.output m hold
  · rwa [List.mem_singleton.mp hnew]

/-- the bucket has no part in it, -/
theorem Settled.rateLimiter {t : WsThrottler F} (h : Settled t) (rateLimiter : TokenBucket F) :
    Settled { t with rateLimiter := rateLimiter } :=
  ⟨h.enabled, h.empty, h.output⟩

/-- so that a message keeps it, -/
theorem Settled.processMessage {t : WsThrottler F} (h : Settled t) (ops : FloatOps F)
    (a : Arrival) : Settled (t.processMessage ops a) := by
  have handled := processMessage_handled ops t a
  generalize t.processMessage ops a = t' at handled ⊢
  cases handled with
  | sent rateLimiter free plain =>
      refine (h.rateLimiter rateLimiter).send (plain.resolve_right ?_)
      rw [h.enabled]
      decide
  | dropped rateLimiter free low => exact ⟨h.enabled, h.empty, h.output⟩
  | aggregated rateLimiter symbol taken =>
      exact ((h.rateLimiter rateLimiter).aggregateL2Update symbol a).1

/-- and any messages do. -/
theorem Settled.processAll {t : WsThrottler F} (h : Settled t) (ops : FloatOps F)
    (arrivals : List Arrival) : Settled (t.processAll ops arrivals) := by
  induction arrivals generalizing t with
  | nil => exact h
  | cons a arrivals ih => exact ih (h.processMessage ops a)

/-- A flush emits nothing. -/
theorem Settled.flushAggregations {t : WsThrottler F} (h : Settled t) (now : Nat) :
    (t.flushAggregations now).output = t.output := by
  have hnone : t.l2Aggregator.entries.filter (fun e => !e.2.isEmpty) = [] := by
    refine List.filter_eq_nil_iff.mpr fun e he => ?_
    have hlookup := List.mem_dlookup t.l2Aggregator.nodupKeys he
    simp [h.empty e.1 e.2 hlookup]
  simp only [WsThrottler.flushAggregations, hnone, List.map_nil, List.append_nil]

/-! ## What is accounted for -/

/-- A message that does not reach an aggregation is forwarded or counted. -/
theorem accounted_of_not_aggregated {ops : FloatOps F} {t : WsThrottler F} {a : Arrival}
    (free : ¬ Aggregated ops t a) :
    Forwarded t (t.processMessage ops a) a.msg ∨
      (¬ a.msg.priority.toNat ≤ MessagePriority.high.toNat ∧
        Counted t (t.processMessage ops a) a.msg) := by
  have handled := processMessage_handled ops t a
  generalize t.processMessage ops a = t' at handled ⊢
  cases handled with
  | sent rateLimiter _ plain => exact Or.inl (send_forwarded _ a.msg)
  | dropped rateLimiter _ low => exact Or.inr ⟨low, Function.update_self ..⟩
  | aggregated rateLimiter symbol taken => exact absurd taken free

/-- **A message that reaches an aggregation is lost**: nothing is sent, nothing counted. -/
theorem Settled.aggregated_lost {ops : FloatOps F} {t : WsThrottler F} {a : Arrival}
    (h : Settled t) (taken : Aggregated ops t a) :
    ¬ Forwarded t (t.processMessage ops a) a.msg ∧ ¬ Counted t (t.processMessage ops a) a.msg := by
  have handled := processMessage_handled ops t a
  generalize t.processMessage ops a = t' at handled ⊢
  cases handled with
  | sent rateLimiter free plain => exact absurd taken free
  | dropped rateLimiter free low => exact absurd taken free
  | aggregated rateLimiter symbol _ =>
      obtain ⟨-, houtput, hcounts⟩ := (h.rateLimiter rateLimiter).aggregateL2Update symbol a
      constructor
      · simp [Forwarded, houtput]
      · intro hcounted
        have hsame : t.droppedCounts a.msg.priority =
            (t.droppedCounts a.msg.priority + 1) % 2 ^ 64 := by
          rw [Counted, hcounts] at hcounted
          exact hcounted
        omega

/-- A sequence in which no message reaches an aggregation is conserved. -/
theorem conserved_of_noneAggregated {HasData : WsMessage → WsMessage → Prop} {ops : FloatOps F}
    {start : WsThrottler F} {arrivals : List Arrival} (free : NoneAggregated ops start arrivals)
    (flushNow : Nat) : Conserved HasData ops start arrivals flushNow := by
  intro before a after hsplit
  rcases accounted_of_not_aggregated (free before a after hsplit) with
    hforwarded | ⟨hlow, hcounted⟩
  · exact ⟨fun _ => hforwarded, Or.inl hforwarded⟩
  · exact ⟨fun hurgent => absurd hurgent hlow, Or.inr (Or.inl hcounted)⟩

/-- In a sequence that is conserved no message reaches an aggregation. -/
theorem Settled.noneAggregated {HasData : WsMessage → WsMessage → Prop} {ops : FloatOps F}
    {start : WsThrottler F} (h : Settled start) {arrivals : List Arrival} {flushNow : Nat}
    (conserved : Conserved HasData ops start arrivals flushNow) :
    NoneAggregated ops start arrivals := by
  intro before a after hsplit taken
  have hbefore := h.processAll ops before
  have hafter := (hbefore.processMessage ops a).processAll ops after
  obtain ⟨hnotForwarded, hnotCounted⟩ := hbefore.aggregated_lost taken
  obtain ⟨-, hforwarded | hcounted | ⟨agg, hmem, haggregate, -⟩⟩ := conserved before a after hsplit
  · exact hnotForwarded hforwarded
  · exact hnotCounted hcounted
  · rw [hafter.flushAggregations flushNow] at hmem
    exact hafter.output agg (List.mem_of_mem_drop hmem) haggregate

/-- **Exactly the messages that reach an aggregation are lost**, whatever counts as an
aggregate with the data of a message. -/
theorem conserved_iff_noneAggregated (HasData : WsMessage → WsMessage → Prop) (ops : FloatOps F)
    (rateLimitPerSecond burstCapacity created : Nat) (arrivals : List Arrival) (flushNow : Nat) :
    Conserved HasData ops (new ops rateLimitPerSecond burstCapacity created) arrivals flushNow ↔
      NoneAggregated ops (new ops rateLimitPerSecond burstCapacity created) arrivals :=
  ⟨(settled_new ops rateLimitPerSecond burstCapacity created).noneAggregated,
    fun free => conserved_of_noneAggregated free flushNow⟩

/-- A level 2 update of high priority with one byte, at the start. -/
def firstUpdate : Arrival := ⟨⟨[7], .high, 0, some "BTCUSDT", .orderBookL2⟩, 0, 0, 0⟩

/-- A throttler of 10 messages a second and a burst of 20 is given one message. -/
theorem not_forall_conserved :
    ¬ ∀ arrivals : List Arrival,
      Conserved (fun agg msg => msg.payload <:+: agg.payload) .exact (new .exact 10 20 0)
        arrivals 0 := by
  intro h
  have free := (settled_new .exact 10 20 0).noneAggregated (h [firstUpdate])
  exact free [] firstUpdate [] rfl (by decide +kernel)

end WsThrottler

end StopTrading.Network.WsThrottle
