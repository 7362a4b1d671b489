import StopTrading.Audit.Ledger
import Std.Data.String.ToNat

/-!
# What the audit ledger attests to

The block hash covers the sequence number, timestamp, event type, symbol and previous
hash of an entry.  The other fields are not hashed, and the logging calls set them on
the copy they return, never on the stored entry.

* `hashInput_inj` — the hashed text determines the hashed fields, for entries that
  name the same previous hash.
* `verifyChain_replace_iff` — verification misses the replacement of an entry exactly
  when no hashed field changed.
* `tamperEvident_iff` — this for every ledger built by logging calls, and that what a
  call returned is never what is stored.

### What is load-bearing

Two facts carry everything, and neither is about hashing.  The text is built with bars between
its parts, and a symbol may contain a bar itself; that the text still determines the parts rests
on the numbers before it, in which there is no bar (`repr_bar_inj`), and on the previous hash
after it being the same on both sides.  With an injective hash the block hash then binds exactly
the hashed fields.

The second is what the stored entries lack.  A logging call attaches order ids, prices and
quantities to the entry that `append` has *returned*, a copy; the stored one stays `Bare`.  So
`Detached` is an invariant of every run, and a ledger has stored what it has returned only as
long as it has returned nothing.
-/

namespace StopTrading.Audit

open Transition Threads HashChain

/-! ## The hashed text -/

/-- Lists that agree agree before and after their first separator. -/
theorem append_separator_inj {α : Type} {sep : α} {xs ys s t : List α} (hxs : sep ∉ xs)
    (hys : sep ∉ ys) (h : xs ++ sep :: s = ys ++ sep :: t) : xs = ys ∧ s = t := by
  induction xs generalizing ys with
  | nil =>
      cases ys with
      | nil => exact ⟨rfl, (List.cons.inj h).2⟩
      | cons y ys => exact absurd ((List.cons.inj h).1 ▸ List.mem_cons_self) hys
  | cons x xs ih =>
      cases ys with
      | nil => exact absurd ((List.cons.inj h).1 ▸ List.mem_cons_self) hxs
      | cons y ys =>
          obtain ⟨rfl, htail⟩ := List.cons.inj h
          obtain ⟨rfl, hst⟩ := ih (List.not_mem_of_not_mem_cons hxs)
            (List.not_mem_of_not_mem_cons hys) htail
          exact ⟨rfl, hst⟩

/-- Digits are no bars. -/
theorem bar_notMem_repr (n : Nat) : '|' ∉ n.repr.toList := by
  intro h
  rw [Nat.toList_repr] at h
  exact absurd (Nat.isDigit_of_mem_toDigits (by decide) (by decide) h) (by decide)

/-- A number before a bar can be read back. -/
theorem repr_bar_inj {n n' : Nat} {s s' : String}
    (h : n.repr ++ ("|" ++ s) = n'.repr ++ ("|" ++ s')) : n = n' ∧ s = s' := by
  have hlist := congrArg String.toList h
  simp only [String.toList_append] at hlist
  obtain ⟨hn, hs⟩ := append_separator_inj (bar_notMem_repr n) (bar_notMem_repr n') hlist
  exact ⟨Nat.repr_injective (String.toList_inj.mp hn), String.toList_inj.mp hs⟩

/-- No two event types share a discriminant. -/
theorem AuditEventType.toU8_injective : Function.Injective AuditEventType.toU8 := by
  intro a b h
  cases a <;> cases b <;> first | rfl | cases h

/-- **The hashed text determines the hashed fields**, for one previous hash. -/
theorem hashInput_inj {sequence sequence' timestampNs timestampNs' : Nat}
    {eventType eventType' : AuditEventType} {symbol symbol' prevHash : String}
    (h : hashInput sequence timestampNs eventType symbol prevHash =
      hashInput sequence' timestampNs' eventType' symbol' prevHash) :
    sequence = sequence' ∧ timestampNs = timestampNs' ∧ eventType = eventType' ∧
      symbol = symbol' := by
  simp only [hashInput, String.append_assoc] at h
  obtain ⟨hsequence, h⟩ := repr_bar_inj h
  obtain ⟨htimestamp, h⟩ := repr_bar_inj h
  obtain ⟨heventType, h⟩ := repr_bar_inj h
  exact ⟨hsequence, htimestamp, AuditEventType.toU8_injective heventType,
    (String.append_left_inj _).mp h⟩

/-! ## Replaced entries -/

/-- Two entries agree in the fields that are hashed. -/
structure AuditEntry.SameHashed (e e' : AuditEntry) : Prop where
  sequence : e'.sequence = e.sequence
  timestampNs : e'.timestampNs = e.timestampNs
  eventType : e'.eventType = e.eventType
  symbol : e'.symbol = e.symbol
  prevHash : e'.prevHash = e.prevHash

/-- The ledger with one stored entry replaced. -/
def AuditLedger.replace (l : AuditLedger) (i : Nat) (e' : AuditEntry) : AuditLedger :=
  { l with entries := l.entries.set i e' }

/-- **What verification misses**: the replacement of an entry that keeps the block hash
and every hashed field, and nothing else where the hash is injective. -/
theorem verifyChain_replace_iff {sha256 : String → String} (hinj : Function.Injective sha256)
    {l : AuditLedger} (hverified : l.verifyChain sha256 = true) {i : Nat} {e e' : AuditEntry}
    (hstored : l.entries[i]? = some e) (hblock : e'.blockHash = e.blockHash) :
    (l.replace i e').verifyChain sha256 = true ↔ e.SameHashed e' := by
  obtain ⟨hi, hget⟩ := List.getElem?_eq_some_iff.mp hstored
  have hentries : l.entries = l.entries.take i ++ e :: l.entries.drop (i + 1) := by
    rw [← hget, List.getElem_cons_drop, List.take_append_drop]
  unfold AuditLedger.verifyChain at hverified
  rw [hentries] at hverified
  have hvalid : e.verifyHash sha256 = true := (verify_cons.mp (verify_append.mp hverified).2).2.1
  unfold AuditLedger.verifyChain AuditLedger.replace
  rw [List.set_eq_take_append_cons_drop, if_pos hi, verify_replace hverified hblock]
  unfold AuditEntry.verifyHash at hvalid ⊢
  rw [beq_iff_eq] at hvalid
  rw [beq_iff_eq, hblock, ← hvalid]
  constructor
  · rintro ⟨hprev, hhash⟩
    have htext := hinj hhash
    rw [hprev] at htext
    obtain ⟨hsequence, htimestamp, heventType, hsymbol⟩ := hashInput_inj htext
    exact ⟨hsequence, htimestamp, heventType, hsymbol, hprev⟩
  · intro hsame
    refine ⟨hsame.prevHash, ?_⟩
    rw [hsame.sequence, hsame.timestampNs, hsame.eventType, hsame.symbol, hsame.prevHash]

/-! ## Returned entries -/

/-- An entry without the details that a logging call attaches. -/
structure AuditEntry.Bare (e : AuditEntry) : Prop where
  orderId : e.orderId = none
  metadata : e.metadata = none

/-- An entry is built without details, -/
theorem AuditEntry.bare_new (sha256 : String → String) (timestampNs sequence : Nat)
    (eventType : AuditEventType) (symbol prevHash : String) :
    (new sha256 timestampNs sequence eventType symbol prevHash).Bare := ⟨rfl, rfl⟩

/-- Every logging call attaches something. -/
theorem LogCall.not_bare_attach (call : LogCall) (e : AuditEntry) : ¬ (call.attach e).Bare := by
  intro h
  cases call with
  | logOrderSubmitted => cases h.orderId
  | logOrderFilled => cases h.orderId
  | logTrade symbol qty price metadata =>
      cases metadata with
      | none => cases h.orderId
      | some meta' => cases h.orderId
  | logSystemEvent => cases h.metadata

/-- What is stored is bare, what was returned is not. -/
structure AuditTrail.Detached (trail : AuditTrail) : Prop where
  stored : ∀ e ∈ trail.ledger.entries, e.Bare
  returned : ∀ e ∈ trail.returned, ¬ e.Bare

/-- a new ledger has neither stored nor returned any, -/
theorem AuditTrail.detached_new (sha256 : String → String) : (new sha256).Detached :=
  ⟨fun _ he => absurd he List.not_mem_nil, fun _ he => absurd he List.not_mem_nil⟩

/-- a push stores its own entry and no other, -/
theorem AuditLedger.mem_push {l : AuditLedger} {entry e : AuditEntry}
    (h : e ∈ (l.push entry).entries) : e ∈ l.entries ∨ e = entry := by
  unfold push at h
  rw [List.mem_append, List.mem_singleton] at h
  refine h.imp_left fun hmem => ?_
  split at hmem
  · exact List.mem_of_mem_eraseIdx hmem
  · exact hmem

/-- so that every step stores bare entries and returns others. -/
theorem AuditTrail.Detached.step {sha256 : String → String} {Tid : Type} [DecidableEq Tid]
    {s s' : State Tid AppendPc AuditTrail} {a : Tid × AppendChoice} (h : s.shared.Detached)
    (hstep : Threads.step (appendThread sha256 Tid) s a = some s') : s'.shared.Detached := by
  obtain ⟨trail, p, hprog, rfl⟩ := step_eq_some.mp hstep
  cases hpc : s.pc a.1 with
  | idle | readPrev call seq =>
      rw [hpc] at hprog
      obtain ⟨rfl, -⟩ := Prod.mk.inj (Option.some.inj hprog)
      exact ⟨h.stored, h.returned⟩
  | push call seq prevHash =>
      rw [hpc] at hprog
      obtain ⟨rfl, -⟩ := Prod.mk.inj (Option.some.inj hprog)
      refine ⟨fun e he => ?_, h.returned⟩
      rcases AuditLedger.mem_push he with hmem | rfl
      · exact h.stored e hmem
      · exact AuditEntry.bare_new ..
  | storeLast call entry =>
      rw [hpc] at hprog
      obtain ⟨rfl, -⟩ := Prod.mk.inj (Option.some.inj hprog)
      refine ⟨h.stored, List.forall_mem_cons.mpr ⟨call.not_bare_attach entry, h.returned⟩⟩

/-- **Returned and stored entries**: each call returned what is stored under its number. -/
def AuditTrail.ReturnsStored (trail : AuditTrail) : Prop :=
  ∀ r ∈ trail.returned, trail.ledger.getEntry r.sequence = some r

/-- Returned and stored entries never agree. -/
theorem AuditTrail.Detached.returnsStored_iff {trail : AuditTrail} (h : trail.Detached) :
    trail.ReturnsStored ↔ trail.returned = [] := by
  constructor
  · intro hreturns
    by_contra hne
    obtain ⟨r, hr⟩ := List.exists_mem_of_ne_nil _ hne
    exact h.returned r hr (h.stored r (List.mem_of_find?_eq_some (hreturns r hr)))
  · intro hnil r hr
    rw [hnil] at hr
    cases hr

/-! ## Tampering -/

/-- **Verification detects** that the entry `e` stored at `i` was replaced by `e'`. -/
def AuditLedger.Detects (sha256 : String → String) (l : AuditLedger) (i : Nat)
    (e e' : AuditEntry) : Prop :=
  e' ≠ e → (l.replace i e').verifyChain sha256 = false

instance (sha256 : String → String) (l : AuditLedger) (i : Nat) (e e' : AuditEntry) :
    Decidable (l.Detects sha256 i e e') :=
  inferInstanceAs (Decidable (_ → _))

instance (trail : AuditTrail) : Decidable trail.ReturnsStored :=
  inferInstanceAs (Decidable (∀ r ∈ trail.returned, _))

/-- **What the ledger attests to**, for any number of threads that log in any
interleaving: verification detects a replacement that keeps the block hash exactly when
it changes a hashed field, or nothing; and calls returned what is stored exactly as long
as no call has returned. -/
theorem tamperEvident_iff {sha256 : String → String} (hinj : Function.Injective sha256)
    {Tid : Type} [DecidableEq Tid] (actions : List (Tid × AppendChoice)) :
    AllStates (step (appendThread sha256 Tid))
      (fun s => s.shared.ledger.verifyChain sha256 = true →
        (∀ i e e', s.shared.ledger.entries[i]? = some e → e'.blockHash = e.blockHash →
          (s.shared.ledger.Detects sha256 i e e' ↔ (e.SameHashed e' → e' = e))) ∧
        (s.shared.ReturnsStored ↔ s.shared.returned = []))
      (start sha256 Tid) actions := by
  have hdetached : AllStates (step (appendThread sha256 Tid)) (fun s => s.shared.Detached)
      (start sha256 Tid) actions :=
    allStates_of_invariant (s := start sha256 Tid)
      (fun _ _ _ detached hstep => AuditTrail.Detached.step detached hstep)
      (AuditTrail.detached_new sha256) actions
  refine hdetached.imp fun s detached hverified =>
    ⟨fun i e e' hstored hblock => ?_, detached.returnsStored_iff⟩
  unfold AuditLedger.Detects
  rw [← Bool.not_eq_true, verifyChain_replace_iff hinj hverified hstored hblock]
  exact not_imp_not

/-- One thread submits an order. -/
def submittedOnce : List (Unit × AppendChoice) :=
  List.replicate 4 ((), ⟨submitted, 1700000000000000000⟩)

/-- After one call there is an entry to replace and one to compare it with. -/
theorem tamperEvident_submittedOnce :
    AllStates (step (appendThread recordedSha256 Unit))
      (fun s => s.shared.ledger.verifyChain recordedSha256 = true →
        (∀ i e e', s.shared.ledger.entries[i]? = some e → e'.blockHash = e.blockHash →
          (s.shared.ledger.Detects recordedSha256 i e e' ↔ (e.SameHashed e' → e' = e))) ∧
        (s.shared.ReturnsStored ↔ s.shared.returned = []))
      (start recordedSha256 Unit) submittedOnce :=
  tamperEvident_iff recordedSha256.injective submittedOnce

/-- **The ledger is not tamper evident**: after one call the stored entry can be given
another quantity, and it is not the entry that the call returned. -/
theorem not_forall_tamperEvident :
    (¬ ∀ (sha256 : String → String), Function.Injective sha256 →
      ∀ (Tid : Type) [DecidableEq Tid] (actions : List (Tid × AppendChoice)),
        AllStates (step (appendThread sha256 Tid))
          (fun s => s.shared.ledger.verifyChain sha256 = true →
            ∀ i e e', s.shared.ledger.entries[i]? = some e → e'.blockHash = e.blockHash →
              s.shared.ledger.Detects sha256 i e e') (start sha256 Tid) actions) ∧
    ¬ ∀ (sha256 : String → String), Function.Injective sha256 →
      ∀ (Tid : Type) [DecidableEq Tid] (actions : List (Tid × AppendChoice)),
        AllStates (step (appendThread sha256 Tid))
          (fun s => s.shared.ledger.verifyChain sha256 = true → s.shared.ReturnsStored)
          (start sha256 Tid) actions := by
  constructor
  · intro h
    have hfirst : AllStates (step (appendThread recordedSha256 Unit))
        (fun s => s.shared.ledger.verifyChain recordedSha256 = true →
          ∀ e ∈ s.shared.ledger.entries[0]?, s.shared.ledger.Detects recordedSha256 0 e
            { e with quantity := some 0x4059000000000000 })
        (start recordedSha256 Unit) submittedOnce :=
      (h recordedSha256 recordedSha256.injective Unit submittedOnce).imp
        fun s hs hverified e he =>
          hs hverified 0 e { e with quantity := some 0x4059000000000000 } he rfl
    revert hfirst
    decide +kernel
  · intro h
    have hrun := h recordedSha256 recordedSha256.injective Unit submittedOnce
    revert hrun
    decide +kernel

end StopTrading.Audit
