import StopTrading.Library.HashChain
import StopTrading.Library.Threads
import Mathlib.Algebra.Group.Nat.Defs
import Mathlib.Data.Fintype.Basic
import Mathlib.Data.List.Basic
import Mathlib.Logic.Equiv.Basic
import Mathlib.Tactic.Common

/-!
# The audit ledger

`AuditLedger` stores entries that name the block hash of the entry before them.  A
logging call draws a sequence number, reads the last block hash and pushes its entry
in three separate critical steps, and finally stores the hash in `last_hash`; the
oldest entry is dropped when a million are stored.  SHA-256 with its hexadecimal
encoding is the parameter `sha256`.

* `AuditTrail`, `appendThread` — the ledger with the entries that the calls returned,
  and a logging call, one critical step at a time.
* `verified_push_iff` — a push keeps the chain and the order of the sequence numbers
  exactly when it is `InTurn`: nothing was pushed since its call read the last hash,
  its number is larger than the last one stored, and nothing is dropped.
* `verifiedAtRest_of_inTurn` — hence the ledger verifies along every run, of any
  number of threads, whose pushes are in turn; `verified_iff_inTurn` is the converse.

### What is load-bearing

The three critical steps of a logging call are each atomic, and the call is not.  That is the
whole difficulty: between the section that reads the last hash and the one that pushes, another
call can push, and then two stored entries name one predecessor.  `Accepts` is written on the
ledger that the push meets and on what the thread carries in its program counter, so that
`InTurn` is a condition on the state before a step and not on how the step turns out.

`room` is the third conjunct for another reason.  A full ledger drops its oldest entry without
moving the genesis hash, and verification starts from the genesis hash (`not_verify_tail`).

SHA-256 is used as a function only.  Where a direction needs more, `verified_push_iff` and what
follows from it, the theorem says that it is injective on the texts that occur.
-/

namespace StopTrading.Audit

open Transition Threads HashChain

/-- `MAX_AUDIT_ENTRIES`. -/
def maxAuditEntries : Nat := 1000000

/-- `AuditEventType`. -/
inductive AuditEventType where
  | orderSubmitted
  | orderAcknowledged
  | orderPartiallyFilled
  | orderFilled
  | orderCancelled
  | orderRejected
  | tradeExecuted
  | positionUpdated
  | riskLimitHit
  | systemEvent
  deriving Repr, DecidableEq

/-- The discriminant, `event_type as u8`. -/
def AuditEventType.toU8 : AuditEventType → Nat
  | orderSubmitted => 0
  | orderAcknowledged => 1
  | orderPartiallyFilled => 2
  | orderFilled => 3
  | orderCancelled => 4
  | orderRejected => 5
  | tradeExecuted => 6
  | positionUpdated => 7
  | riskLimitHit => 8
  | systemEvent => 9

/-- An `f64`, by its bits; the ledger only carries such values along. -/
abbrev F64 := UInt64

/-- `AuditEntry`. -/
structure AuditEntry where
  sequence : Nat
  timestampNs : Nat
  eventType : AuditEventType
  symbol : String
  orderId : Option Nat
  clientOrderId : Option Nat
  side : Option Nat
  quantity : Option F64
  price : Option F64
  fillQty : Option F64
  fillPrice : Option F64
  prevHash : String
  blockHash : String
  metadata : Option String
  deriving Repr, DecidableEq

/-- The text that is hashed, `"{}|{}|{}|{}|{}"`. -/
def hashInput (sequence timestampNs : Nat) (eventType : AuditEventType)
    (symbol prevHash : String) : String :=
  sequence.repr ++ "|" ++ timestampNs.repr ++ "|" ++ eventType.toU8.repr ++ "|" ++ symbol ++
    "|" ++ prevHash

namespace AuditEntry

/-- `AuditEntry::new`; the clock reads `timestampNs`. -/
def new (sha256 : String → String) (timestampNs sequence : Nat) (eventType : AuditEventType)
    (symbol prevHash : String) : AuditEntry where
  sequence := sequence
  timestampNs := timestampNs
  eventType := eventType
  symbol := symbol
  orderId := none
  clientOrderId := none
  side := none
  quantity := none
  price := none
  fillQty := none
  fillPrice := none
  prevHash := prevHash
  blockHash := sha256 (hashInput sequence timestampNs eventType symbol prevHash)
  metadata := none

/-- `AuditEntry::with_order`. -/
def withOrder (entry : AuditEntry) (orderId clientOrderId side : Nat) (qty price : F64) :
    AuditEntry :=
  { entry with
    orderId := some orderId
    clientOrderId := some clientOrderId
    side := some side
    quantity := some qty
    price := some price }

/-- `AuditEntry::with_fill`. -/
def withFill (entry : AuditEntry) (fillQty fillPrice : F64) : AuditEntry :=
  { entry with fillQty := some fillQty, fillPrice := some fillPrice }

/-- `AuditEntry::with_metadata`. -/
def withMetadata (entry : AuditEntry) (meta' : String) : AuditEntry :=
  { entry with metadata := some meta' }

/-- `AuditEntry::verify_hash`. -/
def verifyHash (sha256 : String → String) (entry : AuditEntry) : Bool :=
  sha256 (hashInput entry.sequence entry.timestampNs entry.eventType entry.symbol
    entry.prevHash) == entry.blockHash

/-- An entry that was just built carries the hash of its own fields. -/
@[simp]
theorem verifyHash_new (sha256 : String → String) (timestampNs sequence : Nat)
    (eventType : AuditEventType) (symbol prevHash : String) :
    (new sha256 timestampNs sequence eventType symbol prevHash).verifyHash sha256 = true :=
  beq_self_eq_true _

end AuditEntry

/-- `AuditLedger`. -/
structure AuditLedger where
  genesisHash : String
  lastHash : String
  sequence : Nat
  entries : List AuditEntry
  totalEntries : Nat
  deriving Repr, DecidableEq

/-- The text behind the genesis hash. -/
def genesisText : String := "AUDIT_LEDGER_GENESIS_V1"

namespace AuditLedger

/-- `AuditLedger::new`. -/
def new (sha256 : String → String) : AuditLedger where
  genesisHash := sha256 genesisText
  lastHash := sha256 genesisText
  sequence := 0
  entries := []
  totalEntries := 0

/-- `sequence.fetch_add(1)`. -/
def fetchAdd (l : AuditLedger) : AuditLedger :=
  { l with sequence := (l.sequence + 1) % 2 ^ 64 }

/-- The first critical section of `append`: the hash the new entry will name. -/
def prevHash (l : AuditLedger) : String := tip AuditEntry.blockHash l.genesisHash l.entries

/-- The second critical section of `append`: drop the oldest entry when the ledger is
full, then store the new one. -/
def push (l : AuditLedger) (entry : AuditEntry) : AuditLedger :=
  { l with
    entries :=
      (if l.entries.length ≥ maxAuditEntries then l.entries.eraseIdx 0 else l.entries) ++ [entry]
    totalEntries := (l.totalEntries + 1) % 2 ^ 64 }

/-- `AuditLedger::get_entry`. -/
def getEntry (l : AuditLedger) (sequence : Nat) : Option AuditEntry :=
  l.entries.find? fun e => e.sequence == sequence

/-- `AuditLedger::verify_chain`. -/
def verifyChain (sha256 : String → String) (l : AuditLedger) : Bool :=
  verify AuditEntry.prevHash AuditEntry.blockHash (AuditEntry.verifyHash sha256) l.genesisHash
    l.entries

end AuditLedger

/-- The logging calls with their arguments. -/
inductive LogCall where
  | logOrderSubmitted (symbol : String) (orderId clientOrderId side : Nat) (qty price : F64)
  | logOrderFilled (symbol : String) (orderId clientOrderId side : Nat)
      (qty price fillQty fillPrice : F64)
  | logTrade (symbol : String) (qty price : F64) (metadata : Option String)
  | logSystemEvent (description : String)
  deriving Repr, DecidableEq

namespace LogCall

/-- The event type the call appends with. -/
def eventType : LogCall → AuditEventType
  | logOrderSubmitted .. => .orderSubmitted
  | logOrderFilled .. => .orderFilled
  | logTrade .. => .tradeExecuted
  | logSystemEvent .. => .systemEvent

/-- The symbol the call appends with. -/
def symbol : LogCall → String
  | logOrderSubmitted symbol .. => symbol
  | logOrderFilled symbol .. => symbol
  | logTrade symbol .. => symbol
  | logSystemEvent _ => "SYSTEM"

/-- What the call attaches to the entry that `append` returned. -/
def attach : LogCall → AuditEntry → AuditEntry
  | logOrderSubmitted _ orderId clientOrderId side qty price, entry =>
      entry.withOrder orderId clientOrderId side qty price
  | logOrderFilled _ orderId clientOrderId side qty price fillQty fillPrice, entry =>
      (entry.withOrder orderId clientOrderId side qty price).withFill fillQty fillPrice
  | logTrade _ qty price metadata, entry =>
      match metadata with
      | some meta' => (entry.withOrder 0 0 0 qty price).withMetadata meta'
      | none => entry.withOrder 0 0 0 qty price
  | logSystemEvent description, entry => entry.withMetadata description

end LogCall

/-- The ledger and the entries that logging calls have returned, the newest first. -/
structure AuditTrail where
  ledger : AuditLedger
  returned : List AuditEntry
  deriving Repr, DecidableEq

/-- A fresh ledger. -/
def AuditTrail.new (sha256 : String → String) : AuditTrail := ⟨.new sha256, []⟩

/-- The program counter of a thread, with the local variables of `append`. -/
inductive AppendPc where
  | idle
  | readPrev (call : LogCall) (seq : Nat)
  | push (call : LogCall) (seq : Nat) (prevHash : String)
  | storeLast (call : LogCall) (entry : AuditEntry)
  deriving Repr, DecidableEq

/-- What a step leaves open: which call a thread makes, and what the clock reads. -/
structure AppendChoice where
  call : LogCall
  nanos : Nat
  deriving Repr, DecidableEq

open AppendPc in
/-- **A logging call**, one critical step at a time.  The entry is built, with the
clock's reading cut to 64 bits, between the two critical sections. -/
def appendThread (sha256 : String → String) (Tid : Type) (_ : Tid) (trail : AuditTrail) :
    AppendPc → AppendChoice → Option (AuditTrail × AppendPc)
  | idle, choice =>
      some ({ trail with ledger := trail.ledger.fetchAdd },
        readPrev choice.call trail.ledger.sequence)
  | readPrev call seq, _ => some (trail, push call seq trail.ledger.prevHash)
  | push call seq prevHash, choice =>
      let entry := AuditEntry.new sha256 (choice.nanos % 2 ^ 64) seq call.eventType call.symbol
        prevHash
      some ({ trail with ledger := trail.ledger.push entry }, storeLast call entry)
  | storeLast call entry, _ =>
      some ({ ledger := { trail.ledger with lastHash := entry.blockHash }
              returned := call.attach entry :: trail.returned }, idle)

/-! ## The chain -/

/-- **The audit property**: the chain verifies and the stored entries have strictly
increasing sequence numbers. -/
structure AuditLedger.Verified (sha256 : String → String) (l : AuditLedger) : Prop where
  /-- every entry names the block hash of the entry before it -/
  chain : l.verifyChain sha256 = true
  /-- the order in which entries are stored is that of their numbers -/
  increasing : l.entries.Pairwise fun e e' => e.sequence < e'.sequence

/-- The push of an entry with this number and previous hash is **accepted**: the ledger
still ends in that hash, the number is larger than those stored, and nothing has to be
dropped. -/
structure AuditLedger.Accepts (l : AuditLedger) (seq : Nat) (prevHash : String) : Prop where
  /-- nothing was pushed since the hash was read -/
  current : prevHash = l.prevHash
  /-- and nothing with a number drawn later -/
  larger : ∀ e ∈ l.entries, e.sequence < seq
  /-- the oldest entry stays -/
  room : l.entries.length < maxAuditEntries

instance (sha256 : String → String) (l : AuditLedger) : Decidable (l.Verified sha256) :=
  decidable_of_iff (l.verifyChain sha256 = true ∧
      l.entries.Pairwise fun e e' => e.sequence < e'.sequence)
    ⟨fun h => ⟨h.1, h.2⟩, fun h => ⟨h.chain, h.increasing⟩⟩

instance (l : AuditLedger) (seq : Nat) (prevHash : String) :
    Decidable (l.Accepts seq prevHash) :=
  decidable_of_iff (prevHash = l.prevHash ∧ (∀ e ∈ l.entries, e.sequence < seq) ∧
      l.entries.length < maxAuditEntries)
    ⟨fun h => ⟨h.1, h.2.1, h.2.2⟩, fun h => ⟨h.current, h.larger, h.room⟩⟩

namespace AuditLedger

variable {sha256 : String → String} {l l' : AuditLedger}

/-- An empty ledger has nothing to verify. -/
theorem verified_new (sha256 : String → String) : (new sha256).Verified sha256 :=
  ⟨rfl, List.Pairwise.nil⟩

/-- Only the entries and the genesis hash matter. -/
theorem Verified.of_eq (h : l.Verified sha256) (hentries : l'.entries = l.entries)
    (hgenesis : l'.genesisHash = l.genesisHash) : l'.Verified sha256 := by
  obtain ⟨hchain, hincreasing⟩ := h
  unfold verifyChain at hchain
  rw [← hentries, ← hgenesis] at hchain
  rw [← hentries] at hincreasing
  exact ⟨hchain, hincreasing⟩

/-- With room, a push appends, -/
theorem entries_push_of_room (entry : AuditEntry) (hroom : l.entries.length < maxAuditEntries) :
    (l.push entry).entries = l.entries ++ [entry] := by
  unfold push
  rw [if_neg (Nat.not_le.mpr hroom)]

/-- and without, the oldest entry goes first. -/
theorem entries_push_of_full (entry : AuditEntry) (hfull : maxAuditEntries ≤ l.entries.length) :
    (l.push entry).entries = l.entries.tail ++ [entry] := by
  unfold push
  rw [if_pos hfull, List.eraseIdx_zero]

/-- An entry built from the hash the ledger ends in extends the chain. -/
theorem Verified.push (h : l.Verified sha256) {seq : Nat} {prevHash : String}
    (haccepts : l.Accepts seq prevHash) (nanos : Nat) (eventType : AuditEventType)
    (symbol : String) :
    (l.push (.new sha256 nanos seq eventType symbol prevHash)).Verified sha256 := by
  have hentries := entries_push_of_room
    (.new sha256 nanos seq eventType symbol prevHash) haccepts.room
  constructor
  · unfold verifyChain
    rw [hentries, verify_concat]
    exact ⟨h.chain, haccepts.current, AuditEntry.verifyHash_new ..⟩
  · rw [hentries, List.pairwise_append]
    refine ⟨h.increasing, List.pairwise_singleton _ _, fun e he e' he' => ?_⟩
    rw [List.mem_singleton] at he'
    subst he'
    exact haccepts.larger e he

/-- The genesis text is not one that an entry hashes. -/
theorem hashInput_ne_genesisText (sequence timestampNs : Nat) (eventType : AuditEventType)
    (symbol prevHash : String) :
    hashInput sequence timestampNs eventType symbol prevHash ≠ genesisText := by
  intro h
  have hbar : '|' ∈ (hashInput sequence timestampNs eventType symbol prevHash).toList := by
    simp [hashInput]
  rw [h] at hbar
  exact absurd hbar (by decide)

/-- **A chain cannot be rotated**: without its oldest entry it verifies no longer, where
the hash is injective. -/
theorem not_verify_tail (hinj : Function.Injective sha256)
    (hgenesis : l.genesisHash = sha256 genesisText) (h : l.verifyChain sha256 = true)
    {e e' : AuditEntry} {es : List AuditEntry} (hentries : l.entries = e :: e' :: es) :
    ¬ verify AuditEntry.prevHash AuditEntry.blockHash (AuditEntry.verifyHash sha256)
      l.genesisHash (e' :: es) = true := by
  intro htail
  unfold verifyChain at h
  rw [hentries] at h
  have hblock := own_eq_start_of_tail h htail
  have hvalid : e.verifyHash sha256 = true := (verify_cons.mp h).2.1
  unfold AuditEntry.verifyHash at hvalid
  rw [beq_iff_eq, hblock, hgenesis] at hvalid
  exact hashInput_ne_genesisText _ _ _ _ _ (hinj hvalid)

/-- **Only accepted pushes keep the audit property**, where the hash is injective. -/
theorem verified_push_iff (hinj : Function.Injective sha256)
    (hgenesis : l.genesisHash = sha256 genesisText) (h : l.Verified sha256) (nanos seq : Nat)
    (eventType : AuditEventType) (symbol prevHash : String) :
    (l.push (.new sha256 nanos seq eventType symbol prevHash)).Verified sha256 ↔
      l.Accepts seq prevHash := by
  refine ⟨fun hpush => ?_, fun haccepts => h.push haccepts nanos eventType symbol⟩
  by_cases hroom : l.entries.length < maxAuditEntries
  · have hentries := entries_push_of_room
      (.new sha256 nanos seq eventType symbol prevHash) hroom
    obtain ⟨hchain, hincreasing⟩ := hpush
    unfold verifyChain at hchain
    rw [hentries, verify_concat] at hchain
    rw [hentries, List.pairwise_append] at hincreasing
    exact ⟨hchain.2.1, fun e he => hincreasing.2.2 e he _ List.mem_cons_self, hroom⟩
  · exfalso
    have hchain := hpush.chain
    unfold verifyChain at hchain
    rw [entries_push_of_full _ (Nat.not_lt.mp hroom), verify_append] at hchain
    unfold maxAuditEntries at hroom
    match hentries : l.entries with
    | [] | [_] => simp [hentries] at hroom
    | e :: e' :: es =>
        rw [hentries] at hchain
        exact not_verify_tail hinj hgenesis h.chain hentries hchain.1

end AuditLedger

/-! ## Runs -/

/-- A thread is **in turn** when what it is about to push is accepted. -/
def InTurn {Tid : Type} (s : State Tid AppendPc AuditTrail) (a : Tid × AppendChoice)
    (_ : State Tid AppendPc AuditTrail) : Prop :=
  match s.pc a.1 with
  | .push _ seq prevHash => s.shared.ledger.Accepts seq prevHash
  | _ => True

instance {Tid : Type} (s s' : State Tid AppendPc AuditTrail) (a : Tid × AppendChoice) :
    Decidable (InTurn s a s') := by
  unfold InTurn
  split <;> infer_instance

/-- No append is in progress. -/
def AtRest {Tid : Type} (s : State Tid AppendPc AuditTrail) : Prop := ∀ t, s.pc t = .idle

instance {Tid : Type} [Fintype Tid] (s : State Tid AppendPc AuditTrail) : Decidable (AtRest s) :=
  inferInstanceAs (Decidable (∀ t, s.pc t = .idle))

/-- All threads before their first call, on a fresh ledger. -/
def start (sha256 : String → String) (Tid : Type) : State Tid AppendPc AuditTrail :=
  ⟨.new sha256, fun _ => .idle⟩

section Run

variable {sha256 : String → String} {Tid : Type} [DecidableEq Tid]
variable {s s' : State Tid AppendPc AuditTrail} {a : Tid × AppendChoice}

/-- **What one step does to the ledger**: it pushes an entry built from what its thread
holds, or leaves the entries alone. -/
theorem ledger_step (hstep : step (appendThread sha256 Tid) s a = some s') :
    (∃ call seq prevHash nanos, s.pc a.1 = .push call seq prevHash ∧
      s'.shared.ledger = s.shared.ledger.push
        (.new sha256 nanos seq call.eventType call.symbol prevHash)) ∨
    ((∀ call seq prevHash, s.pc a.1 ≠ .push call seq prevHash) ∧
      s'.shared.ledger.entries = s.shared.ledger.entries ∧
      s'.shared.ledger.genesisHash = s.shared.ledger.genesisHash) := by
  obtain ⟨trail, p, hprog, rfl⟩ := step_eq_some.mp hstep
  cases hpc : s.pc a.1 with
  | push call seq prevHash =>
      rw [hpc] at hprog
      obtain ⟨rfl, -⟩ := Prod.mk.inj (Option.some.inj hprog)
      exact Or.inl ⟨call, seq, prevHash, _, rfl, rfl⟩
  | idle | readPrev call seq | storeLast call entry =>
      rw [hpc] at hprog
      obtain ⟨rfl, -⟩ := Prod.mk.inj (Option.some.inj hprog)
      exact Or.inr ⟨by simp, rfl, rfl⟩

/-- The hash that verification starts from is never written again. -/
theorem genesisHash_step (hstep : step (appendThread sha256 Tid) s a = some s') :
    s'.shared.ledger.genesisHash = s.shared.ledger.genesisHash := by
  obtain ⟨call, seq, prevHash, nanos, -, hledger⟩ | ⟨-, -, hgenesis⟩ := ledger_step hstep
  · rw [hledger]
    rfl
  · exact hgenesis

/-- A step in turn keeps the audit property. -/
theorem verified_step (h : s.shared.ledger.Verified sha256)
    (hstep : step (appendThread sha256 Tid) s a = some s') (hturn : InTurn s a s') :
    s'.shared.ledger.Verified sha256 := by
  obtain ⟨call, seq, prevHash, nanos, hpc, hledger⟩ | ⟨-, hentries, hgenesis⟩ := ledger_step hstep
  · simp only [InTurn, hpc] at hturn
    rw [hledger]
    exact h.push hturn nanos _ _
  · exact h.of_eq hentries hgenesis

/-- Only a step in turn does, where the hash is injective. -/
theorem inTurn_of_verified (hinj : Function.Injective sha256)
    (hgenesis : s.shared.ledger.genesisHash = sha256 genesisText)
    (h : s.shared.ledger.Verified sha256)
    (hstep : step (appendThread sha256 Tid) s a = some s')
    (h' : s'.shared.ledger.Verified sha256) : InTurn s a s' := by
  unfold InTurn
  obtain ⟨call, seq, prevHash, nanos, hpc, hledger⟩ | ⟨hpc, -, -⟩ := ledger_step hstep
  · rw [hledger] at h'
    rw [hpc]
    exact (AuditLedger.verified_push_iff hinj hgenesis h ..).mp h'
  · split
    · rename_i hpush
      exact absurd hpush (hpc _ _ _)
    · trivial

/-- The chain verifies and is in order in all states of a run exactly when all of its
pushes are in turn. -/
theorem verified_iff_inTurn (hinj : Function.Injective sha256)
    (actions : List (Tid × AppendChoice)) :
    AllSteps (step (appendThread sha256 Tid)) InTurn (start sha256 Tid) actions ↔
      AllStates (step (appendThread sha256 Tid)) (fun s => s.shared.ledger.Verified sha256)
        (start sha256 Tid) actions :=
  allSteps_iff_allStates
    (P := fun s => s.shared.ledger.Verified sha256)
    (fun s (inv : s.shared.ledger.genesisHash = sha256 genesisText ∧
      s.shared.ledger.Verified sha256) => inv.2)
    (fun _ _ _ inv hstep hturn =>
      ⟨(genesisHash_step hstep).trans inv.1, verified_step inv.2 hstep hturn⟩)
    (fun _ _ _ inv hstep hverified => inTurn_of_verified hinj inv.1 inv.2 hstep hverified)
    ⟨rfl, AuditLedger.verified_new sha256⟩ actions

/-- **The audit chain verifies whenever no append is in progress**, with any number of
threads in any interleaving, as long as every push is in turn. -/
theorem verifiedAtRest_of_inTurn (actions : List (Tid × AppendChoice))
    (hturn : AllSteps (step (appendThread sha256 Tid)) InTurn (start sha256 Tid) actions) :
    AllStates (step (appendThread sha256 Tid))
      (fun s => AtRest s → s.shared.ledger.Verified sha256) (start sha256 Tid) actions :=
  AllStates.of_invariant
    (P := fun s => AtRest s → s.shared.ledger.Verified sha256)
    (fun s (hverified : s.shared.ledger.Verified sha256) (_ : AtRest s) => hverified)
    (fun _ _ _ hverified hstep hturn => verified_step hverified hstep hturn)
    (AuditLedger.verified_new sha256) hturn

end Run

/-! ## Two threads -/

/-- A permutation of all texts that agrees with SHA-256 on the texts which the runs
below hash. -/
def recordedSha256 : Equiv.Perm String :=
  (Equiv.swap genesisText
    "4f2761d45fbc481127069e32004673b54ef3ffe9de098d125f9237a2c275a89d").trans <|
  (Equiv.swap
    ("0|1700000000000000000|0|BTCUSDT|" ++
      "4f2761d45fbc481127069e32004673b54ef3ffe9de098d125f9237a2c275a89d")
    "81661217db89ada1879cb2f7cfd1b2f0981a13caae852d2753f9c029d97017aa").trans <|
  (Equiv.swap
    ("1|1700000000000000001|0|BTCUSDT|" ++
      "4f2761d45fbc481127069e32004673b54ef3ffe9de098d125f9237a2c275a89d")
    "5c985950e18744473da7674b21e9b4236d6c0869d62552bf5d9809a1c7b835a1").trans <|
  Equiv.swap
    ("1|1700000000000000001|0|BTCUSDT|" ++
      "81661217db89ada1879cb2f7cfd1b2f0981a13caae852d2753f9c029d97017aa")
    "28ce559bbd53ff3d4b251fd454e8bb4e23c094f392ac12ec223e867fb58d50cd"

/-- Order 1 of client order 100 is submitted: buy 1.0 at 50000.0. -/
def submitted : LogCall :=
  .logOrderSubmitted "BTCUSDT" 1 100 0 0x3FF0000000000000 0x40E86A0000000000

/-- Two threads submit orders one after the other. -/
def oneAfterTheOther : List (Bool × AppendChoice) :=
  List.replicate 4 (false, ⟨submitted, 1700000000000000000⟩) ++
    List.replicate 4 (true, ⟨submitted, 1700000000000000001⟩)

/-- One call ends before the next one starts, so that both pushes are in turn. -/
theorem verifiedAtRest_oneAfterTheOther :
    AllStates (step (appendThread recordedSha256 Bool))
      (fun s => AtRest s → s.shared.ledger.Verified recordedSha256) (start recordedSha256 Bool)
      oneAfterTheOther :=
  verifiedAtRest_of_inTurn oneAfterTheOther (by decide +kernel)

/-- Two threads submit orders at the same time: both read the genesis hash before either
of them pushes. -/
def atTheSameTime : List (Bool × AppendChoice) :=
  (List.replicate 4 [(false, ⟨submitted, 1700000000000000000⟩),
    (true, ⟨submitted, 1700000000000000001⟩)]).flatten

/-- **The audit chain does not always verify.** -/
theorem not_forall_verifiedAtRest :
    ¬ ∀ (sha256 : String → String), Function.Injective sha256 →
      ∀ (Tid : Type) [DecidableEq Tid] (actions : List (Tid × AppendChoice)),
        AllStates (step (appendThread sha256 Tid))
          (fun s => AtRest s → s.shared.ledger.Verified sha256) (start sha256 Tid) actions := by
  intro h
  have hrun := h recordedSha256 recordedSha256.injective Bool atTheSameTime
  revert hrun
  decide +kernel

end StopTrading.Audit
