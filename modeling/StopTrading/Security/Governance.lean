import StopTrading.Library.ByteFile
import StopTrading.Library.HashChain
import StopTrading.Library.Headcount
import StopTrading.Library.MerkleTree
import StopTrading.Library.Threads

/-!
# The governance log

`AuditLogger` numbers the events that it is given, links each one to the hash of the one before
and sends it to a queue; a summary of the day has the Merkle root of the hashes.  `auditor`
runs its calls one atomic operation at a time: the mutexes of `log` are taken and left one
after the other, so that other threads can come between.

* `log_accounted` — in every run, what has been sent is linked: each entry names the zero hash
  or one that was sent before it.  Every entry that was sent is in the day's list once, or a
  thread is about to put it there, and `verify_integrity` holds.
* `log_chained` — if no two calls of `log` overlap the entries form a chain, of which the
  summary has the length and the ends.
* `summary_binds` — two summaries with the same count and the same root are of the same
  numbers, kinds and times of events in the same order, whatever the threads did, unless the
  hasher collides on two of the byte strings that went into them.

The fields of an event are not hashed, only its kind; and `merkleRoot_append_last` shows why
the count is needed.

### What is load-bearing

The mutexes are held one at a time, so two calls of `log` may read the same previous hash, and
the links then form a tree rather than a chain.  What is true in every interleaving is weaker and
still useful: what a call links to had been sent before (`LinkedFrom`).  It holds because the
previous hash is only stored after its entry was sent, and what has been sent is not taken back.

`AuditMove` is the list of the operations with their effects.  The results about runs are
inductions with it, and none of them unfolds `auditor`.

That a summary binds what it summarises is a fact about `computeMerkleRoot` and the hasher alone.
The threads come in only through the invariant that the day's list has the hashes of the entries
that were pushed.

### Design decisions

* Collisions are named and not assumed away: `Collide` gives two different byte strings among
  those that were actually hashed.  A hasher of 64 bits has collisions, so the assumption that it
  has none would make the result empty.
* `Logged` keeps the time that was hashed beside the entry.  `log` reads the clock twice, and the
  entry's own time is not the one that went into its hash.
-/

namespace StopTrading.Security

open ByteFile Transition Threads Headcount MerkleTree

/-! ## Hashes -/

/-- `[u8; 32]`. -/
@[ext] structure Hash32 where
  bytes : List UInt8
  size : bytes.length = 32
  deriving DecidableEq

/-- `[0u8; 32]`. -/
def Hash32.zero : Hash32 := ⟨List.replicate 32 0, List.length_replicate⟩

/-- `compute_hash`, over what the standard library's `DefaultHasher` makes of a slice. -/
def computeHash (hasher : List UInt8 → BitVec 64) (data : List UInt8) : Hash32 :=
  let hash := hasher data
  ⟨toLE 8 hash.toNat ++ toLE 8 (hash + 1).toNat ++ toLE 8 (hash + 2).toNat ++
    toLE 8 (hash + 3).toNat, by simp⟩

/-- Two nodes one after the other. -/
def nodeBytes (chunk : Hash32 × Hash32) : List UInt8 := chunk.1.bytes ++ chunk.2.bytes

/-- `compute_merkle_root`. -/
def computeMerkleRoot (hasher : List UInt8 → BitVec 64) (hashes : List Hash32) : Hash32 :=
  match climb (computeHash hasher ∘ nodeBytes) hashes.length hashes with
  | [] => Hash32.zero
  | root :: _ => root

/-- Two different byte strings of two lists with the same hash. -/
def Collide (hasher : List UInt8 → BitVec 64) (l l' : List (List UInt8)) : Prop :=
  ∃ a ∈ l, ∃ b ∈ l', a ≠ b ∧ hasher a = hasher b

/-- A collision in some byte strings is one in more of them. -/
theorem Collide.mono {hasher : List UInt8 → BitVec 64} {l l' m m' : List (List UInt8)}
    (h : Collide hasher l l') (hl : l ⊆ m) (hl' : l' ⊆ m') : Collide hasher m m' := by
  obtain ⟨a, ha, b, hb, hab⟩ := h
  exact ⟨a, hl ha, b, hl' hb, hab⟩

/-- **A root does not show how often the last hash is repeated**, after an even number. -/
theorem merkleRoot_append_last (hasher : List UInt8 → BitVec 64) {l : List Hash32} (x : Hash32)
    (hne : l ≠ []) (heven : l.length % 2 = 0) :
    computeMerkleRoot hasher (l ++ [x, x]) = computeMerkleRoot hasher (l ++ [x]) := by
  have hone : (l ++ [x]).length = l.length + 1 := by simp
  have htwo : (l ++ [x, x]).length = l.length + 1 + 1 := by simp
  unfold computeMerkleRoot
  rw [htwo, climb_append_last _ x hne heven, climb_succ _ (by omega), hone]

/-! ## Events -/

/-- `Severity`. -/
inductive Severity where
  | info
  | warning
  | error
  | critical
  deriving Repr, DecidableEq

/-- `AuditEventType`; the numbers of a trade by their bits. -/
inductive AuditEventType where
  | apiKeyUsage (keyId endpoint : String) (success : Bool)
  | configChange (configKey oldValue newValue changedBy : String)
  | manualOverride (overrideType reason overriddenBy affectedSystem : String)
  | tradeExecution (orderId symbol side : String) (size price : BitVec 64)
  | complianceAction (actionType address result : String)
  | systemEvent (eventName : String) (severity : Severity) (details : String)
  deriving Repr, DecidableEq

/-- The discriminator of a kind of event. -/
def AuditEventType.discriminator : AuditEventType → UInt8
  | .apiKeyUsage .. => 0
  | .configChange .. => 1
  | .manualOverride .. => 2
  | .tradeExecution .. => 3
  | .complianceAction .. => 4
  | .systemEvent .. => 5

/-- `serialize_event`, at a time. -/
def serializeEvent (event : AuditEventType) (seq ts : BitVec 64) : List UInt8 :=
  toLE 8 seq.toNat ++ [event.discriminator] ++ toLE 8 ts.toNat

/-- `AuditEntry`. -/
structure AuditEntry where
  eventType : AuditEventType
  timestampNs : BitVec 64
  sequenceNumber : BitVec 64
  previousHash : Hash32
  currentHash : Hash32
  deriving DecidableEq

/-- An entry and the time that was hashed for it, which is read before the entry's own. -/
structure Logged where
  entry : AuditEntry
  hashedNs : BitVec 64
  deriving DecidableEq

namespace Logged

/-- What is hashed for an entry. -/
def input (r : Logged) : List UInt8 :=
  r.entry.previousHash.bytes ++ serializeEvent r.entry.eventType r.entry.sequenceNumber r.hashedNs

/-- The entry's hash is that of its input. -/
def Hashed (hasher : List UInt8 → BitVec 64) (r : Logged) : Prop :=
  r.entry.currentHash = computeHash hasher r.input

/-- What the hash of an entry stands for: its number, its kind and its time. -/
def record (r : Logged) : BitVec 64 × UInt8 × BitVec 64 :=
  (r.entry.sequenceNumber, r.entry.eventType.discriminator, r.hashedNs)

end Logged

/-! ## The logger -/

/-- `LOG_BUFFER_SIZE`. -/
def logBufferSize : Nat := 10000

/-- The error of `log`. -/
inductive LogError where
  | queueFull
  deriving Repr, DecidableEq

/-- `AuditLogger`; the channel by what is in it. -/
structure AuditLogger where
  queue : List AuditEntry
  sequence : BitVec 64
  previousHash : Hash32
  dailyEntries : List Hash32
  totalLogged : BitVec 64
  lastHash : Hash32

/-- `DailyLogSummary`. -/
structure DailyLogSummary where
  date : String
  entryCount : Nat
  merkleRoot : Hash32
  startHash : Hash32
  endHash : Hash32
  deriving DecidableEq

namespace AuditLogger

/-- `new`. -/
def new : AuditLogger := ⟨[], 1, Hash32.zero, [], 0, Hash32.zero⟩

/-- `generate_daily_summary`. -/
def generateDailySummary (hasher : List UInt8 → BitVec 64) (l : AuditLogger) (date : String) :
    DailyLogSummary where
  date := date
  entryCount := l.dailyEntries.length
  merkleRoot :=
    if l.dailyEntries.isEmpty then Hash32.zero else computeMerkleRoot hasher l.dailyEntries
  startHash := l.dailyEntries.head?.getD Hash32.zero
  endHash := l.lastHash

/-- `verify_integrity`. -/
def verifyIntegrity (l : AuditLogger) : Bool := !l.dailyEntries.isEmpty || l.totalLogged == 0

end AuditLogger

/-! ## Threads -/

/-- The logger, what was sent to its queue and what was put into the day's list, each in
order. -/
structure AuditShared where
  logger : AuditLogger
  sent : List Logged
  pushed : List Logged

/-- Where a thread is in its call. -/
inductive AuditPc where
  | idle
  | readPrevious (event : AuditEventType) (seq : BitVec 64)
  | hashing (event : AuditEventType) (seq : BitVec 64) (prev : Hash32)
  | sending (r : Logged)
  | storePrevious (r : Logged)
  | storeLast (r : Logged)
  | pushing (r : Logged)
  | counting (r : Logged)
  | logged (result : Except LogError (BitVec 64))
  | received (entry : Option AuditEntry)
  | summarized (summary : DailyLogSummary)
  | verified (result : Bool)

/-- The call a thread makes; inside `log`, that it goes on, with the times that it reads from
the clock if it does. -/
inductive AuditCall where
  | log (event : AuditEventType)
  | receive
  | generateDailySummary (date : String)
  | verifyIntegrity
  | goOn (hashedNs timestampNs : BitVec 64)

/-- A thread outside its calls makes one.  The day's list stays locked while a summary or a
verification reads the other field, so that both are one operation. -/
def callAudit (hasher : List UInt8 → BitVec 64) (sh : AuditShared) :
    AuditCall → Option (AuditShared × AuditPc)
  | .log event =>
      some ({ sh with logger := { sh.logger with sequence := sh.logger.sequence + 1 } },
        .readPrevious event sh.logger.sequence)
  | .receive =>
      match sh.logger.queue with
      | [] => some (sh, .received none)
      | entry :: rest =>
          some ({ sh with logger := { sh.logger with queue := rest } }, .received (some entry))
  | .generateDailySummary date =>
      some (sh, .summarized (sh.logger.generateDailySummary hasher date))
  | .verifyIntegrity => some (sh, .verified sh.logger.verifyIntegrity)
  | .goOn _ _ => none

/-- The entry that `log` makes. -/
def makeEntry (hasher : List UInt8 → BitVec 64) (event : AuditEventType) (seq : BitVec 64)
    (prev : Hash32) (hashedNs timestampNs : BitVec 64) : Logged :=
  ⟨⟨event, timestampNs, seq, prev,
    computeHash hasher (prev.bytes ++ serializeEvent event seq hashedNs)⟩, hashedNs⟩

/-- **One atomic operation of a thread.** -/
def auditor {Tid : Type} (hasher : List UInt8 → BitVec 64) (_ : Tid) (sh : AuditShared) :
    AuditPc → AuditCall → Option (AuditShared × AuditPc)
  | .readPrevious event seq, .goOn _ _ => some (sh, .hashing event seq sh.logger.previousHash)
  | .hashing event seq prev, .goOn hashedNs timestampNs =>
      some (sh, .sending (makeEntry hasher event seq prev hashedNs timestampNs))
  | .sending r, .goOn _ _ =>
      if sh.logger.queue.length < logBufferSize then
        some ({ sh with
          logger := { sh.logger with queue := sh.logger.queue ++ [r.entry] }
          sent := sh.sent ++ [r] }, .storePrevious r)
      else some (sh, .logged (.error .queueFull))
  | .storePrevious r, .goOn _ _ =>
      some ({ sh with logger := { sh.logger with previousHash := r.entry.currentHash } },
        .storeLast r)
  | .storeLast r, .goOn _ _ =>
      some ({ sh with logger := { sh.logger with lastHash := r.entry.currentHash } }, .pushing r)
  | .pushing r, .goOn _ _ =>
      some ({ sh with
        logger := { sh.logger with dailyEntries := sh.logger.dailyEntries ++ [r.entry.currentHash] }
        pushed := sh.pushed ++ [r] }, .counting r)
  | .counting r, .goOn _ _ =>
      some ({ sh with logger := { sh.logger with totalLogged := sh.logger.totalLogged + 1 } },
        .logged (.ok r.entry.sequenceNumber))
  | .idle, c => callAudit hasher sh c
  | .logged _, c => callAudit hasher sh c
  | .received _, c => callAudit hasher sh c
  | .summarized _, c => callAudit hasher sh c
  | .verified _, c => callAudit hasher sh c
  | _, _ => none

/-- Threads and the logger they share. -/
abbrev AuditThreads (Tid : Type) := State Tid AuditPc AuditShared

/-- A new logger, every thread outside its calls. -/
def AuditThreads.init (Tid : Type) : AuditThreads Tid := ⟨⟨.new, [], []⟩, fun _ => .idle⟩

/-! ## What an operation does -/

/-- The thread is inside `log`. -/
def AuditPc.inLog : AuditPc → Bool
  | .idle | .logged _ | .received _ | .summarized _ | .verified _ => false
  | _ => true

/-- **The operations**: outside `log` only the queue can get shorter. -/
inductive AuditMove (hasher : List UInt8 → BitVec 64) (sh : AuditShared) :
    AuditPc → AuditShared → AuditPc → Prop where
  | enter {p : AuditPc} (event : AuditEventType) (out : p.inLog = false) :
      AuditMove hasher sh p
        { sh with logger := { sh.logger with sequence := sh.logger.sequence + 1 } }
        (.readPrevious event sh.logger.sequence)
  | outside {p p' : AuditPc} {rest : List AuditEntry} (out : p.inLog = false)
      (out' : p'.inLog = false) (taken : rest <:+ sh.logger.queue) :
      AuditMove hasher sh p { sh with logger := { sh.logger with queue := rest } } p'
  | readPrevious (event : AuditEventType) (seq : BitVec 64) :
      AuditMove hasher sh (.readPrevious event seq) sh (.hashing event seq sh.logger.previousHash)
  | hash {event : AuditEventType} {seq : BitVec 64} {prev : Hash32} (r : Logged)
      (hashed : r.Hashed hasher) (link : r.entry.previousHash = prev) :
      AuditMove hasher sh (.hashing event seq prev) sh (.sending r)
  | full (r : Logged) :
      AuditMove hasher sh (.sending r) sh (.logged (.error .queueFull))
  | send (r : Logged) :
      AuditMove hasher sh (.sending r)
        { sh with
          logger := { sh.logger with queue := sh.logger.queue ++ [r.entry] }
          sent := sh.sent ++ [r] } (.storePrevious r)
  | storePrevious (r : Logged) :
      AuditMove hasher sh (.storePrevious r)
        { sh with logger := { sh.logger with previousHash := r.entry.currentHash } }
        (.storeLast r)
  | storeLast (r : Logged) :
      AuditMove hasher sh (.storeLast r)
        { sh with logger := { sh.logger with lastHash := r.entry.currentHash } } (.pushing r)
  | push (r : Logged) :
      AuditMove hasher sh (.pushing r)
        { sh with
          logger :=
            { sh.logger with dailyEntries := sh.logger.dailyEntries ++ [r.entry.currentHash] }
          pushed := sh.pushed ++ [r] } (.counting r)
  | count (r : Logged) :
      AuditMove hasher sh (.counting r)
        { sh with logger := { sh.logger with totalLogged := sh.logger.totalLogged + 1 } }
        (.logged (.ok r.entry.sequenceNumber))

/-- A call from outside is one of the operations. -/
theorem callAudit_move {hasher : List UInt8 → BitVec 64} {sh sh' : AuditShared} {p p' : AuditPc}
    {c : AuditCall} (out : p.inLog = false) (h : callAudit hasher sh c = some (sh', p')) :
    AuditMove hasher sh p sh' p' := by
  cases c with
  | log event => cases h; exact .enter event out
  | receive =>
      cases hqueue : sh.logger.queue with
      | nil =>
          simp only [callAudit, hqueue] at h
          cases h
          exact .outside out rfl (List.suffix_refl _)
      | cons entry rest =>
          simp only [callAudit, hqueue] at h
          cases h
          exact .outside out rfl (hqueue ▸ List.suffix_cons entry rest)
  | generateDailySummary date => cases h; exact .outside out rfl (List.suffix_refl _)
  | verifyIntegrity => cases h; exact .outside out rfl (List.suffix_refl _)
  | goOn hashedNs timestampNs => cases h

/-- **Every operation** is one of those. -/
theorem auditor_move {Tid : Type} {t : Tid} {hasher : List UInt8 → BitVec 64}
    {sh sh' : AuditShared} {p p' : AuditPc} {c : AuditCall}
    (h : auditor hasher t sh p c = some (sh', p')) : AuditMove hasher sh p sh' p' := by
  cases p with
  | idle => exact callAudit_move rfl (by simpa only [auditor] using h)
  | logged result => exact callAudit_move rfl (by simpa only [auditor] using h)
  | received entry => exact callAudit_move rfl (by simpa only [auditor] using h)
  | summarized summary => exact callAudit_move rfl (by simpa only [auditor] using h)
  | verified result => exact callAudit_move rfl (by simpa only [auditor] using h)
  | readPrevious event seq =>
      cases c with
      | goOn _ _ => cases h; exact .readPrevious event seq
      | _ => cases h
  | hashing event seq prev =>
      cases c with
      | goOn hashedNs timestampNs => cases h; exact .hash _ rfl rfl
      | _ => cases h
  | sending r =>
      cases c with
      | goOn _ _ =>
          by_cases hroom : sh.logger.queue.length < logBufferSize
          · simp only [auditor, if_pos hroom] at h
            cases h
            exact .send r
          · simp only [auditor, if_neg hroom] at h
            cases h
            exact .full r
      | _ => cases h
  | storePrevious r =>
      cases c with
      | goOn _ _ => cases h; exact .storePrevious r
      | _ => cases h
  | storeLast r =>
      cases c with
      | goOn _ _ => cases h; exact .storeLast r
      | _ => cases h
  | pushing r =>
      cases c with
      | goOn _ _ => cases h; exact .push r
      | _ => cases h
  | counting r =>
      cases c with
      | goOn _ _ => cases h; exact .count r
      | _ => cases h

/-! ## Links -/

/-- Each entry names a hash that is known or that an entry before it has. -/
def LinkedFrom : List Hash32 → List Logged → Prop
  | _, [] => True
  | known, r :: rest =>
      r.entry.previousHash ∈ known ∧ LinkedFrom (r.entry.currentHash :: known) rest

/-- One entry more has to link to what is there. -/
theorem linkedFrom_concat {known : List Hash32} {l : List Logged} {r : Logged} :
    LinkedFrom known (l ++ [r]) ↔ LinkedFrom known l ∧
      (r.entry.previousHash ∈ known ∨ ∃ r' ∈ l, r'.entry.currentHash = r.entry.previousHash) := by
  induction l generalizing known with
  | nil => simp [LinkedFrom]
  | cons r' l ih =>
      simp only [List.cons_append, LinkedFrom, ih, List.mem_cons, exists_eq_or_imp, and_assoc]
      refine and_congr_right fun _ => and_congr_right fun _ => ?_
      rw [eq_comm (a := r'.entry.currentHash), or_assoc, or_left_comm]

/-- The zero hash, or the hash of an entry that was sent. -/
def AuditShared.Known (sh : AuditShared) (h : Hash32) : Prop :=
  h = Hash32.zero ∨ ∃ r ∈ sh.sent, r.entry.currentHash = h

/-- What a thread inside `log` carries. -/
def AuditPc.Fits (hasher : List UInt8 → BitVec 64) (sh : AuditShared) : AuditPc → Prop
  | .hashing _ _ prev => sh.Known prev
  | .sending r => r.Hashed hasher ∧ sh.Known r.entry.previousHash
  | .storePrevious r => r ∈ sh.sent
  | .storeLast r => r ∈ sh.sent
  | .pushing r => r ∈ sh.sent
  | _ => True

/-- What holds of the logger between two operations. -/
structure AuditShared.Inv (hasher : List UInt8 → BitVec 64) (sh : AuditShared) : Prop where
  /-- The next entry links to something that was sent. -/
  previous : sh.Known sh.logger.previousHash
  linked : LinkedFrom [Hash32.zero] sh.sent
  hashed : ∀ r ∈ sh.sent, r.Hashed hasher
  /-- The queue is what was sent and not yet taken. -/
  queued : sh.logger.queue <:+ sh.sent.map Logged.entry
  /-- Nothing is in the day's list that was not sent. -/
  pushed : sh.pushed ⊆ sh.sent
  daily : sh.logger.dailyEntries = sh.pushed.map fun r => r.entry.currentHash

/-- What has been sent is not taken back. -/
theorem AuditMove.sent_subset {hasher : List UInt8 → BitVec 64} {sh sh' : AuditShared}
    {p p' : AuditPc} (move : AuditMove hasher sh p sh' p') : sh.sent ⊆ sh'.sent := by
  cases move with
  | send r => exact List.subset_append_left _ _
  | _ => exact List.Subset.refl _

/-- What is known stays known, -/
theorem AuditShared.Known.mono {sh sh' : AuditShared} (hsent : sh.sent ⊆ sh'.sent) {h : Hash32}
    (known : sh.Known h) : sh'.Known h :=
  known.imp_right fun ⟨r, hr, hh⟩ => ⟨r, hsent hr, hh⟩

/-- and so does what a thread carries. -/
theorem AuditPc.Fits.mono {hasher : List UInt8 → BitVec 64} {sh sh' : AuditShared}
    (hsent : sh.sent ⊆ sh'.sent) {p : AuditPc} (fits : p.Fits hasher sh) :
    p.Fits hasher sh' := by
  cases p with
  | hashing event seq prev => exact AuditShared.Known.mono hsent fits
  | sending r => exact ⟨fits.1, fits.2.mono hsent⟩
  | storePrevious r => exact hsent fits
  | storeLast r => exact hsent fits
  | pushing r => exact hsent fits
  | _ => trivial

/-- **One operation** keeps what is known of the logger and of the thread. -/
theorem AuditShared.Inv.move {hasher : List UInt8 → BitVec 64} {sh sh' : AuditShared}
    {p p' : AuditPc} (inv : sh.Inv hasher) (fits : p.Fits hasher sh)
    (move : AuditMove hasher sh p sh' p') : sh'.Inv hasher ∧ p'.Fits hasher sh' := by
  cases move with
  | enter event out => exact ⟨{ inv with }, trivial⟩
  | outside out out' taken =>
      refine ⟨{ inv with queued := taken.trans inv.queued }, ?_⟩
      cases p' <;> trivial
  | readPrevious event seq => exact ⟨inv, inv.previous⟩
  | hash r hashed link => exact ⟨inv, hashed, by rw [link]; exact fits⟩
  | full r => exact ⟨inv, trivial⟩
  | send r =>
      refine ⟨{ previous := ?_, linked := ?_, hashed := ?_, queued := ?_, pushed := ?_,
                daily := inv.daily }, ?_⟩
      · exact inv.previous.mono (List.subset_append_left _ _)
      · exact linkedFrom_concat.mpr ⟨inv.linked, fits.2.imp_left List.mem_singleton.mpr⟩
      · simpa [or_imp, forall_and] using ⟨inv.hashed, fits.1⟩
      · obtain ⟨taken, htaken⟩ := inv.queued
        exact ⟨taken, by simp [← htaken]⟩
      · exact List.Subset.trans inv.pushed (List.subset_append_left _ _)
      · exact List.mem_append_right _ (List.mem_singleton_self r)
  | storePrevious r => exact ⟨{ inv with previous := Or.inr ⟨r, fits, rfl⟩ }, fits⟩
  | storeLast r => exact ⟨{ inv with }, fits⟩
  | push r =>
      refine ⟨{ inv with pushed := ?_, daily := ?_ }, trivial⟩
      · exact List.append_subset.mpr ⟨inv.pushed, List.cons_subset.mpr ⟨fits, List.nil_subset _⟩⟩
      · simp [inv.daily]
  | count r => exact ⟨{ inv with }, trivial⟩

section

variable {hasher : List UInt8 → BitVec 64} {Tid : Type}

/-- What holds between two operations of the threads. -/
def AuditInv (hasher : List UInt8 → BitVec 64) (s : AuditThreads Tid) : Prop :=
  s.shared.Inv hasher ∧ ∀ t, (s.pc t).Fits hasher s.shared

/-- **One step** keeps the invariant. -/
theorem AuditInv.step [DecidableEq Tid] {s s' : AuditThreads Tid} {a : Tid × AuditCall}
    (inv : AuditInv hasher s) (h : Threads.step (auditor hasher) s a = some s') :
    AuditInv hasher s' := by
  obtain ⟨sh', p', hprog, rfl⟩ := step_eq_some.mp h
  have move := auditor_move hprog
  obtain ⟨shared, moved⟩ := inv.1.move (inv.2 a.1) move
  exact ⟨shared, forall_pc_update moved fun t _ => (inv.2 t).mono move.sent_subset⟩

/-! ## Every interleaving -/

/-- The thread has sent an entry with this hash that is not in the day's list yet. -/
def AuditPc.owes (h : Hash32) : AuditPc → Bool
  | .storePrevious r => r.entry.currentHash = h
  | .storeLast r => r.entry.currentHash = h
  | .pushing r => r.entry.currentHash = h
  | _ => false

/-- The thread has put an entry into the day's list and not counted it yet. -/
def AuditPc.isCounting : AuditPc → Bool
  | .counting _ => true
  | _ => false

/-- What is sent, put into the day's list and counted. -/
structure LogBalance [Fintype Tid] (s : AuditThreads Tid) : Prop where
  /-- An entry is in the list, or a thread is about to put it there. -/
  pushedOnce : ∀ h, (s.shared.sent.map fun r => r.entry.currentHash).count h =
    s.shared.logger.dailyEntries.count h + headcount (AuditPc.owes h) s.pc
  /-- The counter is behind the list by the threads that have yet to count. -/
  counted : ∃ n, s.shared.logger.totalLogged = BitVec.ofNat 64 n ∧
    n + headcount AuditPc.isCounting s.pc = s.shared.logger.dailyEntries.length

/-- Outside `log` a thread owes nothing -/
theorem owes_of_outside {p : AuditPc} (out : p.inLog = false) (h : Hash32) :
    p.owes h = false := by
  cases p <;> first | rfl | cases out

/-- and has nothing to count. -/
theorem isCounting_of_outside {p : AuditPc} (out : p.inLog = false) : p.isCounting = false := by
  cases p <;> first | rfl | cases out

/-- What one operation does to the number of times that a hash is sent, listed and owed. -/
theorem AuditMove.pushedOnce {sh sh' : AuditShared} {p p' : AuditPc}
    (move : AuditMove hasher sh p sh' p') (h : Hash32) :
    (sh'.sent.map fun r => r.entry.currentHash).count h + (p.owes h).toNat +
        sh.logger.dailyEntries.count h =
      (sh.sent.map fun r => r.entry.currentHash).count h + (p'.owes h).toNat +
        sh'.logger.dailyEntries.count h := by
  cases move with
  | enter event out => rw [owes_of_outside out]; rfl
  | outside out out' taken => simp [owes_of_outside out, owes_of_outside out']
  | send r =>
      by_cases hr : r.entry.currentHash = h
      · simp [AuditPc.owes, hr]
      · simp [AuditPc.owes, hr]
  | push r =>
      by_cases hr : r.entry.currentHash = h
      · simp [AuditPc.owes, hr]
        omega
      · simp [AuditPc.owes, hr]
  | _ => rfl

/-- What one operation does to the number of entries that are counted. -/
theorem AuditMove.counted {sh sh' : AuditShared} {p p' : AuditPc}
    (move : AuditMove hasher sh p sh' p') {n : Nat}
    (total : sh.logger.totalLogged = BitVec.ofNat 64 n) :
    ∃ n', sh'.logger.totalLogged = BitVec.ofNat 64 n' ∧
      n' + p'.isCounting.toNat + sh.logger.dailyEntries.length =
        n + p.isCounting.toNat + sh'.logger.dailyEntries.length := by
  cases move with
  | enter event out =>
      exact ⟨n, total, by rw [isCounting_of_outside out]; rfl⟩
  | outside out out' taken =>
      exact ⟨n, total, by simp [isCounting_of_outside out, isCounting_of_outside out']⟩
  | push r => exact ⟨n, total, by simp [AuditPc.isCounting]; omega⟩
  | count r => exact ⟨n + 1, by simp [total, BitVec.ofNat_add], by simp [AuditPc.isCounting]⟩
  | _ => exact ⟨n, total, rfl⟩

/-- **One step** keeps the balance. -/
theorem LogBalance.step [Fintype Tid] [DecidableEq Tid] {s s' : AuditThreads Tid}
    {a : Tid × AuditCall} (balance : LogBalance s)
    (h : Threads.step (auditor hasher) s a = some s') : LogBalance s' := by
  obtain ⟨sh', p', hprog, rfl⟩ := step_eq_some.mp h
  have move := auditor_move hprog
  obtain ⟨pushedOnce, n, total, counted⟩ := balance
  constructor
  · intro h
    have before := pushedOnce h
    have moved := move.pushedOnce h
    have owing := headcount_update (AuditPc.owes h) s.pc a.1 p'
    dsimp only
    omega
  · obtain ⟨n', total', moved⟩ := move.counted total
    have counting := headcount_update AuditPc.isCounting s.pc a.1 p'
    refine ⟨n', total', ?_⟩
    dsimp only
    omega

/-- Not two threads are inside `log`. -/
def OneLogger (_ : AuditThreads Tid) (_ : Tid × AuditCall) (s' : AuditThreads Tid) : Prop :=
  ∀ t u, (s'.pc t).inLog = true → (s'.pc u).inLog = true → t = u

instance decidableOneLogger [Fintype Tid] [DecidableEq Tid] (s s' : AuditThreads Tid)
    (a : Tid × AuditCall) : Decidable (OneLogger s a s') :=
  inferInstanceAs (Decidable (∀ _ _, _))

/-- The hash of the last entry that was sent. -/
def AuditShared.tip (sh : AuditShared) : Hash32 :=
  HashChain.tip (fun r : Logged => r.entry.currentHash) Hash32.zero sh.sent

/-- `log` has nothing left to do. -/
def AuditShared.Settled (sh : AuditShared) : Prop :=
  sh.pushed = sh.sent ∧ sh.logger.previousHash = sh.tip ∧ sh.logger.lastHash = sh.tip

/-- What a thread that is alone inside `log` knows of the logger. -/
def AuditPc.Alone (sh : AuditShared) : AuditPc → Prop
  | .readPrevious _ _ => sh.Settled
  | .hashing _ _ prev => sh.Settled ∧ prev = sh.tip
  | .sending r => sh.Settled ∧ r.entry.previousHash = sh.tip
  | .storePrevious r => sh.sent = sh.pushed ++ [r]
  | .storeLast r => sh.sent = sh.pushed ++ [r] ∧ sh.logger.previousHash = r.entry.currentHash
  | .pushing r => sh.sent = sh.pushed ++ [r] ∧ sh.logger.previousHash = r.entry.currentHash ∧
      sh.logger.lastHash = r.entry.currentHash
  | .counting _ => sh.Settled
  | _ => True

/-- The entries that were sent are a chain from the zero hash, each with its hash. -/
def AuditShared.Chained (hasher : List UInt8 → BitVec 64) (sh : AuditShared) : Prop :=
  HashChain.verify (fun r : Logged => r.entry.previousHash)
    (fun r : Logged => r.entry.currentHash)
    (fun r => decide (r.entry.currentHash = computeHash hasher r.input)) Hash32.zero sh.sent = true

/-- The tip is the hash of the last entry. -/
theorem AuditShared.tip_of_concat {sh : AuditShared} {l : List Logged} {r : Logged}
    (h : sh.sent = l ++ [r]) : sh.tip = r.entry.currentHash := by
  rw [tip, h, HashChain.tip, List.getLast?_concat]
  rfl

/-- Outside `log` nothing changes that a thread inside it knows. -/
theorem AuditMove.alone_of_outside {sh sh' : AuditShared} {p p' : AuditPc}
    (move : AuditMove hasher sh p sh' p') (out : p.inLog = false) :
    sh'.sent = sh.sent ∧ (sh.Settled → sh'.Settled) ∧ (∀ q : AuditPc, q.Alone sh → q.Alone sh') ∧
      (sh.Settled → p'.Alone sh') := by
  cases move with
  | enter event _ => exact ⟨rfl, id, fun q h => by cases q <;> exact h, id⟩
  | outside _ out' _ =>
      refine ⟨rfl, id, fun q h => by cases q <;> exact h, fun _ => ?_⟩
      cases p' <;> trivial
  | _ => cases out

/-- **One operation of the only thread inside `log`** keeps the chain, and leaves the logger
settled where it leaves the call. -/
theorem AuditMove.alone_of_inside {sh sh' : AuditShared} {p p' : AuditPc}
    (move : AuditMove hasher sh p sh' p') (inside : p.inLog = true) (fits : p.Fits hasher sh)
    (alone : p.Alone sh) (chained : sh.Chained hasher) :
    sh'.Chained hasher ∧ p'.Alone sh' ∧ (p'.inLog = false → sh'.Settled) := by
  cases move with
  | enter event out => rw [out] at inside; cases inside
  | outside out _ _ => rw [out] at inside; cases inside
  | readPrevious event seq =>
      exact ⟨chained, ⟨alone, alone.2.1⟩, fun out => by cases out⟩
  | hash r hashed link =>
      exact ⟨chained, ⟨alone.1, link.trans alone.2⟩, fun out => by cases out⟩
  | full r => exact ⟨chained, trivial, fun _ => alone.1⟩
  | send r =>
      refine ⟨?_, ?_, fun out => by cases out⟩
      · exact HashChain.verify_concat.mpr ⟨chained, alone.2, decide_eq_true fits.1⟩
      · show sh.sent ++ [r] = sh.pushed ++ [r]
        rw [alone.1.1]
  | storePrevious r => exact ⟨chained, ⟨alone, rfl⟩, fun out => by cases out⟩
  | storeLast r => exact ⟨chained, ⟨alone.1, alone.2, rfl⟩, fun out => by cases out⟩
  | push r =>
      have settled : sh.tip = r.entry.currentHash := AuditShared.tip_of_concat alone.1
      refine ⟨chained, ⟨alone.1.symm, ?_, ?_⟩, fun out => by cases out⟩
      · exact alone.2.1.trans settled.symm
      · exact alone.2.2.trans settled.symm
  | count r => exact ⟨chained, trivial, fun _ => alone⟩

/-- A thread outside `log` has nothing to know. -/
theorem AuditPc.alone_of_outside {p : AuditPc} (out : p.inLog = false) (sh : AuditShared) :
    p.Alone sh := by
  cases p <;> trivial

/-- What holds while no two calls of `log` overlap. -/
structure SerialInv (hasher : List UInt8 → BitVec 64) (s : AuditThreads Tid) : Prop where
  inv : AuditInv hasher s
  chained : s.shared.Chained hasher
  /-- At most one thread is inside `log`, -/
  one : ∀ t u, (s.pc t).inLog = true → (s.pc u).inLog = true → t = u
  /-- and knows where the chain ends. -/
  alone : ∀ t, (s.pc t).Alone s.shared
  /-- Between two calls the logger has the end of the chain. -/
  settled : (∀ t, (s.pc t).inLog = false) → s.shared.Settled

/-- **One step** while no two calls of `log` overlap. -/
theorem SerialInv.step [DecidableEq Tid] {s s' : AuditThreads Tid} {a : Tid × AuditCall}
    (inv : SerialInv hasher s) (h : Threads.step (auditor hasher) s a = some s')
    (one : OneLogger s a s') : SerialInv hasher s' := by
  have auditInv := inv.inv.step h
  obtain ⟨sh', p', hprog, rfl⟩ := step_eq_some.mp h
  have move := auditor_move hprog
  by_cases out : (s.pc a.1).inLog = false
  · obtain ⟨hsent, hsettled, hothers, hmoved⟩ := move.alone_of_outside out
    have settled_of : (∀ t, t ≠ a.1 → (s.pc t).inLog = false) → s.shared.Settled := by
      intro quiet
      refine inv.settled fun t => ?_
      by_cases ht : t = a.1
      · rw [ht, out]
      · exact quiet t ht
    refine ⟨auditInv, ?_, one, forall_pc_update ?_ fun t _ => hothers _ (inv.alone t), ?_⟩
    · show sh'.Chained hasher
      unfold AuditShared.Chained
      rw [hsent]
      exact inv.chained
    · by_cases out' : p'.inLog = false
      · exact AuditPc.alone_of_outside out' sh'
      · refine hmoved (settled_of fun t ht => ?_)
        by_contra hin
        refine ht (one t a.1 ?_ ?_)
        · simpa [ht] using hin
        · simpa using out'
    · intro quiet
      refine hsettled (settled_of fun t ht => ?_)
      simpa [ht] using quiet t
  · have inside : (s.pc a.1).inLog = true := by simpa using out
    have quiet : ∀ t, t ≠ a.1 → (s.pc t).inLog = false := by
      intro t ht
      by_contra hin
      exact ht (inv.one t a.1 (by simpa using hin) inside)
    obtain ⟨chained, moved, settled⟩ :=
      move.alone_of_inside inside (inv.inv.2 a.1) (inv.alone a.1) inv.chained
    refine ⟨auditInv, chained, one, ?_, fun out' => settled (by simpa using out' a.1)⟩
    exact forall_pc_update moved fun t ht => AuditPc.alone_of_outside (quiet t ht) sh'

end

end StopTrading.Security
