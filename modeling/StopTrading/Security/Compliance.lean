import Mathlib.Data.Nat.ModEq
import StopTrading.Library.Headcount
import StopTrading.Library.Threads

/-!
# The compliance engine

`ComplianceEngine` answers pre-trade checks from a Bloom filter of sanctioned addresses that
other threads extend while it is read.  `screener` runs its calls one atomic operation at a
time: a call to `insert` stores one byte a probe, a call to `contains` loads one byte a probe,
and a check reads the kill switch first and ends with the counter of its result.

`ComplianceShared.listed` are the addresses whose insertion has finished, and a check carries
those that were listed when it was called.

* `listed_never_cleared` — in every run, a check of an address that was listed before the
  call is rejected, and its risk level is `critical`, whatever is inserted meanwhile.
* `checks_accounted` — in every state of a run, the checks counted in `total_checks` are
  those counted under a result and those still under way, modulo `2 ^ 64`.

Both hold for every hash function.

### What is load-bearing

The filter only grows: no operation clears a byte.  So a check that loads its probes one by one
sees, at each of them, at least what was there when it was called, and for an address that was
listed then all are set.  `Fits` says this of a thread in the middle of its call, and the case
that would be wrong, a probe that is not set, is impossible for such an address (`fits_miss`).

The counters are read and written by single atomic additions and need no such argument.  A check
adds one to the total and later one to a result; `isCounted` says that it is between the two, and
the number of threads for which it holds closes the gap (`checks_accounted`).

### Design decisions

* `ComplianceEffect` states what any operation keeps, and both results are derived from it.
  Neither goes through the branches of `screener` again.
* The list of finished insertions is a ghost.  An insertion under way may be seen or not, so the
  result is about addresses that were listed when the check was called.
* The hash is a parameter with no hypothesis.  False positives are possible and are not excluded.
-/

namespace StopTrading.Security

open Transition Threads Headcount

/-- The bytes of an address. -/
abbrev Address := List UInt8

/-- `ComplianceResult`. -/
inductive ComplianceResult where
  | approved
  | rejectedSanctioned
  | rejectedHighRisk
  | pendingReview
  | unknown
  deriving Repr, DecidableEq

/-- `RiskLevel`. -/
inductive RiskLevel where
  | low
  | medium
  | high
  | critical
  deriving Repr, DecidableEq

/-- `ComplianceCheck`, the fields a check reads. -/
structure ComplianceCheck where
  address : Address
  amountUsd : Option Nat
  deriving Repr, DecidableEq

/-! ## The filter -/

/-- `SanctionsFilter`; a byte that was never stored is zero. -/
structure SanctionsFilter where
  bits : Nat → Nat
  size : Nat
  hashCount : Nat

namespace SanctionsFilter

/-- `SanctionsFilter::new`. -/
def new (size hashCount : Nat) : SanctionsFilter := ⟨fun _ => 0, size, hashCount⟩

/-- `compute_hashes`: the hash of the address and that of its bytes in reverse, combined. -/
def computeHashes (hash : List UInt8 → Nat) (f : SanctionsFilter) (address : Address) :
    List Nat :=
  let h1 := hash address
  let h2 := hash address.reverse
  (List.range f.hashCount).map fun i => (h1 + i * h2 % 2 ^ 64) % 2 ^ 64

/-- The bytes that stand for an address. -/
def probes (hash : List UInt8 → Nat) (f : SanctionsFilter) (address : Address) : List Nat :=
  (f.computeHashes hash address).map (· % f.size)

/-- One store of `insert`. -/
def mark (f : SanctionsFilter) (idx : Nat) : SanctionsFilter :=
  { f with bits := Function.update f.bits idx 1 }

/-- Every byte of a list is set. -/
def Marked (f : SanctionsFilter) (idxs : List Nat) : Prop := ∀ idx ∈ idxs, f.bits idx ≠ 0

/-- A store does not change which bytes stand for an address. -/
@[simp] theorem probes_mark (hash : List UInt8 → Nat) (f : SanctionsFilter) (idx : Nat) :
    (f.mark idx).probes hash = f.probes hash := rfl

/-- It clears nothing, -/
theorem bits_mark {f : SanctionsFilter} {idx i : Nat} (h : f.bits i ≠ 0) :
    (f.mark idx).bits i ≠ 0 := by
  simp only [mark, Function.update_apply]
  split
  · exact one_ne_zero
  · exact h

/-- and it sets its own byte. -/
theorem bits_mark_self (f : SanctionsFilter) (idx : Nat) : (f.mark idx).bits idx ≠ 0 := by
  simp [mark]

/-- What is marked stays marked. -/
theorem Marked.mark {f : SanctionsFilter} {idxs : List Nat} (h : f.Marked idxs) (idx : Nat) :
    (f.mark idx).Marked idxs := fun i hi => bits_mark (h i hi)

end SanctionsFilter

/-! ## The patterns -/

/-- `HighRiskPatterns`. -/
structure HighRiskPatterns where
  mixerPrefixes : List (List UInt8)
  gamblingPrefixes : List (List UInt8)
  deriving Repr, DecidableEq

/-- `HighRiskPatterns::new`. -/
def HighRiskPatterns.new : HighRiskPatterns := ⟨[[0, 0, 0, 0]], []⟩

/-- `is_mixer`. -/
def HighRiskPatterns.isMixer (p : HighRiskPatterns) (address : Address) : Bool :=
  p.mixerPrefixes.any fun pre => pre.isPrefixOf address

/-- `is_gambling`. -/
def HighRiskPatterns.isGambling (p : HighRiskPatterns) (address : Address) : Bool :=
  p.gamblingPrefixes.any fun pre => pre.isPrefixOf address

/-! ## The engine -/

/-- `ComplianceEngine`. -/
structure ComplianceEngine where
  sanctionsFilter : SanctionsFilter
  highRiskPatterns : HighRiskPatterns
  totalChecks : Nat
  approvedCount : Nat
  rejectedSanctioned : Nat
  rejectedHighRisk : Nat
  pendingCount : Nat
  totalCheckTimeNs : Nat
  killSwitchActive : Bool

/-- `COMPLIANCE_BLOOM_SIZE`. -/
def complianceBloomSize : Nat := 2 ^ 22

/-- `COMPLIANCE_HASH_COUNT`. -/
def complianceHashCount : Nat := 5

/-- `ComplianceEngine::new`. -/
def ComplianceEngine.new : ComplianceEngine :=
  ⟨.new complianceBloomSize complianceHashCount, .new, 0, 0, 0, 0, 0, 0, false⟩

/-- The engine and the addresses whose insertion has finished. -/
structure ComplianceShared where
  engine : ComplianceEngine
  listed : List Address

/-- A question to the engine: `check`, with the time it started, `quick_check` or
`get_risk_level`. -/
inductive Query where
  | full (check : ComplianceCheck) (start : Nat)
  | quick (address : Address)
  | risk (address : Address)
  deriving Repr, DecidableEq

/-- The address a question is about. -/
def Query.address : Query → Address
  | .full check _ => check.address
  | .quick address => address
  | .risk address => address

/-- The question is a check. -/
def Query.isCheck : Query → Bool
  | .risk _ => false
  | _ => true

/-- Where a thread is in its call.  An insertion carries the probes it has still to store
and the addresses that follow; a question carries the addresses listed when it was asked,
`returned` whether it found the kill switch on. -/
inductive CompliancePc where
  | idle
  | inserting (address : Address) (rest : List Nat) (more : List Address)
  | loadKillSwitch (q : Query) (since : List Address)
  | countTotal (q : Query) (since : List Address)
  | scanning (q : Query) (rest : List Nat) (since : List Address)
  | count (q : Query) (result : ComplianceResult) (since : List Address)
  | recordTime (q : Query) (start : Nat) (result : ComplianceResult) (since : List Address)
  | returned (q : Query) (result : ComplianceResult) (since : List Address) (killed : Bool)
  | assessed (q : Query) (level : RiskLevel) (since : List Address)
  deriving Repr, DecidableEq

/-- The call a thread makes; inside a call, that it goes on, and the time it would read. -/
inductive ComplianceCall where
  | addSanctionedAddress (address : Address)
  | loadOfacList (addresses : List Address)
  | check (check : ComplianceCheck) (now : Nat)
  | quickCheck (address : Address)
  | getRiskLevel (address : Address)
  | activateKillSwitch
  | deactivateKillSwitch
  | goOn (now : Nat)
  deriving Repr, DecidableEq

namespace ComplianceEngine

/-- The counter of a result. -/
def countResult (e : ComplianceEngine) : ComplianceResult → ComplianceEngine
  | .approved => { e with approvedCount := (e.approvedCount + 1) % 2 ^ 64 }
  | .rejectedSanctioned => { e with rejectedSanctioned := (e.rejectedSanctioned + 1) % 2 ^ 64 }
  | .rejectedHighRisk => { e with rejectedHighRisk := (e.rejectedHighRisk + 1) % 2 ^ 64 }
  | .pendingReview => { e with pendingCount := (e.pendingCount + 1) % 2 ^ 64 }
  | .unknown => e

/-- `record_check_time`. -/
def recordCheckTime (e : ComplianceEngine) (start now : Nat) : ComplianceEngine :=
  { e with totalCheckTimeNs := (e.totalCheckTimeNs + (now - start)) % 2 ^ 64 }

/-- What follows when every probe is set. -/
def hit (q : Query) (since : List Address) : CompliancePc :=
  match q with
  | .full .. | .quick _ => .count q .rejectedSanctioned since
  | .risk _ => .assessed q .critical since

/-- The result of `check` for an address the filter does not have. -/
def screenFull (e : ComplianceEngine) (check : ComplianceCheck) : ComplianceResult :=
  if e.highRiskPatterns.isMixer check.address then .rejectedHighRisk
  else
    match check.amountUsd with
    | some amount => if amount > 10000000 then .pendingReview else .approved
    | none => .approved

/-- The result of `quick_check` for an address the filter does not have. -/
def screenQuick (e : ComplianceEngine) (address : Address) : ComplianceResult :=
  if e.highRiskPatterns.isMixer address then .rejectedHighRisk else .approved

/-- The result of `get_risk_level` for an address the filter does not have. -/
def assess (e : ComplianceEngine) (address : Address) : RiskLevel :=
  if e.highRiskPatterns.isMixer address then .high
  else if e.highRiskPatterns.isGambling address then .medium
  else .low

/-- What follows when a probe is not set. -/
def miss (e : ComplianceEngine) (q : Query) (since : List Address) : CompliancePc :=
  match q with
  | .full check _ => .count q (e.screenFull check) since
  | .quick address => .count q (e.screenQuick address) since
  | .risk address => .assessed q (e.assess address) since

end ComplianceEngine

/-- The insertions that follow in a call. -/
def insertNext (hash : List UInt8 → Nat) (f : SanctionsFilter) : List Address → CompliancePc
  | [] => .idle
  | address :: more => .inserting address (f.probes hash address) more

/-- A thread outside its calls makes one. -/
def callCompliance (hash : List UInt8 → Nat) (sh : ComplianceShared) :
    ComplianceCall → Option (ComplianceShared × CompliancePc)
  | .addSanctionedAddress address =>
      some (sh, insertNext hash sh.engine.sanctionsFilter [address])
  | .loadOfacList addresses => some (sh, insertNext hash sh.engine.sanctionsFilter addresses)
  | .check check now => some (sh, .loadKillSwitch (.full check now) sh.listed)
  | .quickCheck address => some (sh, .loadKillSwitch (.quick address) sh.listed)
  | .getRiskLevel address =>
      some (sh, .scanning (.risk address) (sh.engine.sanctionsFilter.probes hash address)
        sh.listed)
  | .activateKillSwitch =>
      some ({ sh with engine := { sh.engine with killSwitchActive := true } }, .idle)
  | .deactivateKillSwitch =>
      some ({ sh with engine := { sh.engine with killSwitchActive := false } }, .idle)
  | .goOn _ => none

/-- **One atomic operation of a thread.** -/
def screener {Tid : Type} (hash : List UInt8 → Nat) (_ : Tid) (sh : ComplianceShared) :
    CompliancePc → ComplianceCall → Option (ComplianceShared × CompliancePc)
  | .idle, c => callCompliance hash sh c
  | .returned .., c => callCompliance hash sh c
  | .assessed .., c => callCompliance hash sh c
  | .inserting address (idx :: rest) more, .goOn _ =>
      some ({ sh with engine :=
          { sh.engine with sanctionsFilter := sh.engine.sanctionsFilter.mark idx } },
        .inserting address rest more)
  | .inserting address [] more, .goOn _ =>
      some ({ sh with listed := address :: sh.listed },
        insertNext hash sh.engine.sanctionsFilter more)
  | .loadKillSwitch q since, .goOn _ =>
      if sh.engine.killSwitchActive then some (sh, .returned q .rejectedHighRisk since true)
      else some (sh, .countTotal q since)
  | .countTotal q since, .goOn _ =>
      some ({ sh with engine :=
          { sh.engine with totalChecks := (sh.engine.totalChecks + 1) % 2 ^ 64 } },
        .scanning q (sh.engine.sanctionsFilter.probes hash q.address) since)
  | .scanning q (idx :: rest) since, .goOn _ =>
      if sh.engine.sanctionsFilter.bits idx = 0 then some (sh, sh.engine.miss q since)
      else some (sh, .scanning q rest since)
  | .scanning q [] since, .goOn _ => some (sh, ComplianceEngine.hit q since)
  | .count q result since, .goOn _ =>
      let sh' := { sh with engine := sh.engine.countResult result }
      match q with
      | .full _ start => some (sh', .recordTime q start result since)
      | _ => some (sh', .returned q result since false)
  | .recordTime q start result since, .goOn now =>
      some ({ sh with engine := sh.engine.recordCheckTime start now },
        .returned q result since false)
  | _, _ => none

/-- Threads and the engine they share. -/
abbrev ComplianceThreads (Tid : Type) := State Tid CompliancePc ComplianceShared

/-- A new engine, every thread outside its calls. -/
def ComplianceThreads.init (Tid : Type) : ComplianceThreads Tid := ⟨⟨.new, []⟩, fun _ => .idle⟩

/-! ## What an operation does -/

/-- The engine's filter has every probe of an address. -/
def ComplianceShared.Covers (hash : List UInt8 → Nat) (sh : ComplianceShared)
    (address : Address) : Prop :=
  sh.engine.sanctionsFilter.Marked (sh.engine.sanctionsFilter.probes hash address)

/-- Every address whose insertion has finished is in the filter. -/
def ComplianceShared.ListedCovered (hash : List UInt8 → Nat) (sh : ComplianceShared) : Prop :=
  ∀ address ∈ sh.listed, sh.Covers hash address

/-- What a thread inside a call knows: which probes of an insertion are stored, and what
the answer to a question about a listed address is. -/
def CompliancePc.Fits (hash : List UInt8 → Nat) (sh : ComplianceShared) : CompliancePc → Prop
  | .idle => True
  | .inserting address rest _ => ∀ idx ∈ sh.engine.sanctionsFilter.probes hash address,
      idx ∈ rest ∨ sh.engine.sanctionsFilter.bits idx ≠ 0
  | .loadKillSwitch q since => q.isCheck = true ∧ since ⊆ sh.listed
  | .countTotal q since => q.isCheck = true ∧ since ⊆ sh.listed
  | .scanning q rest since =>
      since ⊆ sh.listed ∧ rest ⊆ sh.engine.sanctionsFilter.probes hash q.address
  | .count q result since =>
      result ≠ .unknown ∧ (q.address ∈ since → result = .rejectedSanctioned)
  | .recordTime q _ result since => q.address ∈ since → result = .rejectedSanctioned
  | .returned q result since killed =>
      q.address ∈ since → result = if killed then .rejectedHighRisk else .rejectedSanctioned
  | .assessed q level since => q.address ∈ since → level = .critical

/-- The thread has counted a check and not yet its result. -/
def CompliancePc.isCounted : CompliancePc → Bool
  | .scanning q _ _ => q.isCheck
  | .count _ _ _ => true
  | _ => false

/-- The checks counted under a result. -/
def ComplianceEngine.settled (e : ComplianceEngine) : Nat :=
  e.approvedCount + e.rejectedSanctioned + e.rejectedHighRisk + e.pendingCount

/-- What one operation keeps of the filter and the list, and does to the counters. -/
structure ComplianceEffect (hash : List UInt8 → Nat) (sh : ComplianceShared) (p : CompliancePc)
    (sh' : ComplianceShared) (p' : CompliancePc) : Prop where
  probes : sh'.engine.sanctionsFilter.probes hash = sh.engine.sanctionsFilter.probes hash
  /-- No byte is cleared. -/
  bits : ∀ idx, sh.engine.sanctionsFilter.bits idx ≠ 0 →
    sh'.engine.sanctionsFilter.bits idx ≠ 0
  listed : sh.listed ⊆ sh'.listed
  /-- An insertion is listed when all its bytes are stored. -/
  finished : ∀ address ∈ sh'.listed, address ∈ sh.listed ∨ sh.Covers hash address
  fits : p'.Fits hash sh'
  /-- A check is counted in the total first, and under its result later. -/
  counters : sh'.engine.totalChecks + sh.engine.settled + p.isCounted.toNat ≡
    sh.engine.totalChecks + sh'.engine.settled + p'.isCounted.toNat [MOD 2 ^ 64]

/-- An operation that leaves the engine and the list alone. -/
theorem ComplianceEffect.silent {hash : List UInt8 → Nat} {sh : ComplianceShared}
    {p p' : CompliancePc} (fits : p'.Fits hash sh) (counted : p'.isCounted = p.isCounted) :
    ComplianceEffect hash sh p sh p' where
  probes := rfl
  bits _ := id
  listed := List.Subset.refl _
  finished _ h := Or.inl h
  fits := fits
  counters := by rw [counted]

/-- An operation that changes counters or the kill switch. -/
theorem ComplianceEffect.counter {hash : List UInt8 → Nat} {sh : ComplianceShared}
    {p p' : CompliancePc} {e : ComplianceEngine}
    (filter : e.sanctionsFilter = sh.engine.sanctionsFilter)
    (fits : p'.Fits hash { sh with engine := e })
    (counters : e.totalChecks + sh.engine.settled + p.isCounted.toNat ≡
      sh.engine.totalChecks + e.settled + p'.isCounted.toNat [MOD 2 ^ 64]) :
    ComplianceEffect hash sh p { sh with engine := e } p' where
  probes := by simp only [filter]
  bits idx h := by simpa only [filter] using h
  listed := List.Subset.refl _
  finished _ h := Or.inl h
  fits := fits
  counters := counters

/-- Nothing of the next insertion is stored yet. -/
theorem fits_insertNext (hash : List UInt8 → Nat) (sh : ComplianceShared)
    (addresses : List Address) :
    (insertNext hash sh.engine.sanctionsFilter addresses).Fits hash sh := by
  cases addresses with
  | nil => trivial
  | cons address more => exact fun idx hidx => Or.inl hidx

/-- An insertion counts no check. -/
@[simp] theorem isCounted_insertNext (hash : List UInt8 → Nat) (f : SanctionsFilter)
    (addresses : List Address) : (insertNext hash f addresses).isCounted = false := by
  cases addresses <;> rfl

/-- A call only moves the thread, or sets the kill switch. -/
theorem callCompliance_effect {hash : List UInt8 → Nat} {sh sh' : ComplianceShared}
    {p p' : CompliancePc} {c : ComplianceCall} (out : p.isCounted = false)
    (h : callCompliance hash sh c = some (sh', p')) : ComplianceEffect hash sh p sh' p' := by
  cases c with
  | addSanctionedAddress address =>
      cases h
      exact .silent (fits_insertNext hash sh [address]) (by simp [out])
  | loadOfacList addresses =>
      cases h
      exact .silent (fits_insertNext hash sh addresses) (by simp [out])
  | check check now => cases h; exact .silent ⟨rfl, List.Subset.refl _⟩ out.symm
  | quickCheck address => cases h; exact .silent ⟨rfl, List.Subset.refl _⟩ out.symm
  | getRiskLevel address =>
      cases h
      exact .silent ⟨List.Subset.refl _, List.Subset.refl _⟩ out.symm
  | activateKillSwitch => cases h; exact .counter rfl trivial (by simp [out]; rfl)
  | deactivateKillSwitch => cases h; exact .counter rfl trivial (by simp [out]; rfl)
  | goOn now => cases h

/-- A check gives a definite answer, -/
theorem screenFull_ne_unknown (e : ComplianceEngine) (check : ComplianceCheck) :
    e.screenFull check ≠ .unknown := by
  unfold ComplianceEngine.screenFull
  split
  · simp
  · split
    · split <;> simp
    · simp

/-- and so does a quick one. -/
theorem screenQuick_ne_unknown (e : ComplianceEngine) (address : Address) :
    e.screenQuick address ≠ .unknown := by
  unfold ComplianceEngine.screenQuick
  split <;> simp

/-- A probe that is not set answers for an address that is not listed. -/
theorem fits_miss {hash : List UInt8 → Nat} {sh : ComplianceShared} {q : Query}
    {since : List Address} (out : q.address ∉ since) :
    (sh.engine.miss q since).Fits hash sh := by
  cases q with
  | full check start => exact ⟨screenFull_ne_unknown _ _, fun h => (out h).elim⟩
  | quick address => exact ⟨screenQuick_ne_unknown _ _, fun h => (out h).elim⟩
  | risk address => exact fun h => (out h).elim

/-- The answer is still to be counted after a probe that is not set, -/
theorem isCounted_miss (e : ComplianceEngine) (q : Query) (rest : List Nat)
    (since : List Address) :
    (e.miss q since).isCounted = (CompliancePc.scanning q rest since).isCounted := by
  cases q <;> rfl

/-- Every probe set answers for any address. -/
theorem fits_hit (hash : List UInt8 → Nat) (sh : ComplianceShared) (q : Query)
    (since : List Address) : (ComplianceEngine.hit q since).Fits hash sh := by
  cases q with
  | risk address => exact fun _ => rfl
  | _ => exact ⟨by simp, fun _ => rfl⟩

/-- and after the last that is. -/
theorem isCounted_hit (q : Query) (rest : List Nat) (since : List Address) :
    (ComplianceEngine.hit q since).isCounted =
      (CompliancePc.scanning q rest since).isCounted := by
  cases q <;> rfl

/-- Counting a result settles a check. -/
theorem settled_countResult (e : ComplianceEngine) {result : ComplianceResult}
    (known : result ≠ .unknown) :
    (e.countResult result).settled ≡ e.settled + 1 [MOD 2 ^ 64] := by
  unfold Nat.ModEq
  cases result with
  | unknown => exact (known rfl).elim
  | _ => simp only [ComplianceEngine.countResult, ComplianceEngine.settled]; omega

/-- Counting a result leaves the total, -/
@[simp] theorem totalChecks_countResult (e : ComplianceEngine) (result : ComplianceResult) :
    (e.countResult result).totalChecks = e.totalChecks := by
  cases result <;> rfl

/-- and the filter. -/
@[simp] theorem sanctionsFilter_countResult (e : ComplianceEngine) (result : ComplianceResult) :
    (e.countResult result).sanctionsFilter = e.sanctionsFilter := by
  cases result <;> rfl

/-- Counting a check leaves one more to settle. -/
theorem total_counted (e : ComplianceEngine) :
    (e.totalChecks + 1) % 2 ^ 64 + e.settled + 0 ≡ e.totalChecks + e.settled + 1
      [MOD 2 ^ 64] := by
  unfold Nat.ModEq
  omega

section Operations

variable {hash : List UInt8 → Nat} {Tid : Type} {t : Tid} {sh sh' : ComplianceShared}
variable {p' : CompliancePc} {c : ComplianceCall}

/-- **An insertion** stores one probe after the other; then its address is listed. -/
theorem inserting_effect {address : Address} {rest : List Nat} {more : List Address}
    (known : (CompliancePc.inserting address rest more).Fits hash sh)
    (h : screener hash t sh (.inserting address rest more) c = some (sh', p')) :
    ComplianceEffect hash sh (.inserting address rest more) sh' p' := by
  cases c with
  | goOn now =>
      cases rest with
      | nil =>
          cases h
          have complete : sh.Covers hash address := by
            intro idx hidx
            simpa using known idx hidx
          exact
            { probes := rfl
              bits := fun _ => id
              listed := List.subset_cons_self _ _
              finished := by
                intro other hother
                rcases List.mem_cons.mp hother with rfl | hold
                · exact Or.inr complete
                · exact Or.inl hold
              fits := fits_insertNext hash { sh with listed := address :: sh.listed } more
              counters := by rw [isCounted_insertNext]; rfl }
      | cons idx rest =>
          cases h
          exact
            { probes := rfl
              bits := fun _ => SanctionsFilter.bits_mark
              listed := List.Subset.refl _
              finished := fun _ => Or.inl
              fits := by
                intro i hi
                rcases known i hi with hrest | hset
                · rcases List.mem_cons.mp hrest with rfl | hrest
                  · exact Or.inr (SanctionsFilter.bits_mark_self _ _)
                  · exact Or.inl hrest
                · exact Or.inr (SanctionsFilter.bits_mark hset)
              counters := rfl }
  | _ => cases rest <;> cases h

/-- **A scan** loads one probe after the other, up to the first that is not set. -/
theorem scanning_effect {q : Query} {rest : List Nat} {since : List Address}
    (covered : sh.ListedCovered hash) (known : (CompliancePc.scanning q rest since).Fits hash sh)
    (h : screener hash t sh (.scanning q rest since) c = some (sh', p')) :
    ComplianceEffect hash sh (.scanning q rest since) sh' p' := by
  cases c with
  | goOn now =>
      cases rest with
      | nil => cases h; exact .silent (fits_hit hash sh q since) (isCounted_hit q [] since)
      | cons idx rest =>
          simp only [screener] at h
          split at h
          · rename_i hzero
            cases h
            -- all probes of a listed address are set, and this one is not
            have out : q.address ∉ since := fun hin =>
              covered _ (known.1 hin) idx (known.2 List.mem_cons_self) hzero
            exact .silent (fits_miss out) (isCounted_miss sh.engine q _ since)
          · cases h
            exact .silent ⟨known.1, List.Subset.trans (List.subset_cons_self _ _) known.2⟩
              (by cases q <;> rfl)
  | _ => cases rest <;> cases h

/-- **The counter of a result** settles a check that was counted. -/
theorem count_effect {q : Query} {result : ComplianceResult} {since : List Address}
    (known : (CompliancePc.count q result since).Fits hash sh)
    (h : screener hash t sh (.count q result since) c = some (sh', p')) :
    ComplianceEffect hash sh (.count q result since) sh' p' := by
  have settled : (sh.engine.countResult result).totalChecks + sh.engine.settled + 1 ≡
      sh.engine.totalChecks + (sh.engine.countResult result).settled + 0 [MOD 2 ^ 64] := by
    rw [totalChecks_countResult, Nat.add_assoc]
    exact ((settled_countResult sh.engine known.1).symm).add_left _
  have filter := sanctionsFilter_countResult sh.engine result
  cases c with
  | goOn now =>
      cases q with
      | full check start => cases h; exact .counter filter known.2 settled
      | quick address => cases h; exact .counter filter known.2 settled
      | risk address => cases h; exact .counter filter known.2 settled
  | _ => cases h

/-- **The operations by their effect.** -/
theorem screener_effect {p : CompliancePc} (covered : sh.ListedCovered hash)
    (known : p.Fits hash sh) (h : screener hash t sh p c = some (sh', p')) :
    ComplianceEffect hash sh p sh' p' := by
  cases p with
  | idle => exact callCompliance_effect rfl h
  | returned q result since killed => exact callCompliance_effect rfl h
  | assessed q level since => exact callCompliance_effect rfl h
  | inserting address rest more => exact inserting_effect known h
  | scanning q rest since => exact scanning_effect covered known h
  | count q result since => exact count_effect known h
  | loadKillSwitch q since =>
      cases c with
      | goOn now =>
          simp only [screener] at h
          split at h
          · cases h; exact .silent (fun _ => rfl) rfl
          · cases h; exact .silent known rfl
      | _ => cases h
  | countTotal q since =>
      cases c with
      | goOn now =>
          cases h
          refine .counter rfl ⟨known.2, List.Subset.refl _⟩ ?_
          have counted : (CompliancePc.scanning q
              (sh.engine.sanctionsFilter.probes hash q.address) since).isCounted = true :=
            known.1
          rw [counted]
          exact total_counted sh.engine
      | _ => cases h
  | recordTime q start result since =>
      cases c with
      | goOn now =>
          cases h
          exact .counter rfl known rfl
      | _ => cases h

end Operations

/-! ## Runs -/

/-- What holds between two operations. -/
structure ComplianceInv (hash : List UInt8 → Nat) {Tid : Type} (s : ComplianceThreads Tid) :
    Prop where
  /-- The filter is ahead of the list, -/
  covered : s.shared.ListedCovered hash
  /-- and the threads know what they have seen. -/
  fits : ∀ t, (s.pc t).Fits hash s.shared

/-- **The answers to questions about listed addresses**: an address that was listed when it
was asked about is rejected for that, or for the kill switch, and its risk is critical. -/
def ListedNeverCleared {Tid : Type} (s : ComplianceThreads Tid) : Prop :=
  (∀ t q result since killed, s.pc t = .returned q result since killed → q.address ∈ since →
    result = if killed then .rejectedHighRisk else .rejectedSanctioned) ∧
  ∀ t q level since, s.pc t = .assessed q level since → q.address ∈ since → level = .critical

/-- **The checks add up**: those counted in `total_checks` are those counted under a result and
those under way. -/
def ChecksAccounted {Tid : Type} [Fintype Tid] (s : ComplianceThreads Tid) : Prop :=
  s.shared.engine.totalChecks ≡
    s.shared.engine.approvedCount + s.shared.engine.rejectedSanctioned +
      s.shared.engine.rejectedHighRisk + s.shared.engine.pendingCount +
      headcount CompliancePc.isCounted s.pc [MOD 2 ^ 64]

section

variable {hash : List UInt8 → Nat} {Tid : Type}

/-- A new engine has nothing in its list. -/
theorem complianceInv_init : ComplianceInv hash (ComplianceThreads.init Tid) where
  covered _ h := (List.not_mem_nil h).elim
  fits _ := trivial

/-- The filter keeps what is listed while it grows. -/
theorem ComplianceShared.ListedCovered.of_effect {sh sh' : ComplianceShared}
    {p p' : CompliancePc} (h : sh.ListedCovered hash)
    (effect : ComplianceEffect hash sh p sh' p') : sh'.ListedCovered hash := by
  intro address hlisted idx hidx
  rw [effect.probes] at hidx
  rcases effect.finished address hlisted with hold | hnew
  · exact effect.bits idx (h address hold idx hidx)
  · exact effect.bits idx (hnew idx hidx)

/-- What a thread knows stays true while another moves. -/
theorem CompliancePc.Fits.of_effect {sh sh' : ComplianceShared} {p p' q : CompliancePc}
    (h : q.Fits hash sh) (effect : ComplianceEffect hash sh p sh' p') : q.Fits hash sh' := by
  cases q with
  | inserting address rest more =>
      intro idx hidx
      rw [effect.probes] at hidx
      exact (h idx hidx).imp_right (effect.bits idx)
  | loadKillSwitch q since => exact ⟨h.1, List.Subset.trans h.2 effect.listed⟩
  | countTotal q since => exact ⟨h.1, List.Subset.trans h.2 effect.listed⟩
  | scanning q rest since =>
      refine ⟨List.Subset.trans h.1 effect.listed, ?_⟩
      rw [effect.probes]
      exact h.2
  | _ => exact h

variable [DecidableEq Tid]

/-- **One step** keeps the filter ahead of the list, and the threads informed. -/
theorem ComplianceInv.step {s s' : ComplianceThreads Tid} {a : Tid × ComplianceCall}
    (inv : ComplianceInv hash s) (h : Threads.step (screener hash) s a = some s') :
    ComplianceInv hash s' := by
  obtain ⟨sh', p', hprog, rfl⟩ := step_eq_some.mp h
  have effect := screener_effect inv.covered (inv.fits a.1) hprog
  exact
    { covered := inv.covered.of_effect effect
      fits := forall_pc_update effect.fits fun t _ => (inv.fits t).of_effect effect }

/-- **One step** keeps the account of the checks. -/
theorem ChecksAccounted.step [Fintype Tid] {s s' : ComplianceThreads Tid}
    {a : Tid × ComplianceCall} (counted : ChecksAccounted s) (inv : ComplianceInv hash s)
    (h : Threads.step (screener hash) s a = some s') : ChecksAccounted s' := by
  obtain ⟨sh', p', hprog, rfl⟩ := step_eq_some.mp h
  have counters := (screener_effect inv.covered (inv.fits a.1) hprog).counters
  have moved := headcount_update CompliancePc.isCounted s.pc a.1 p'
  unfold ChecksAccounted Nat.ModEq at *
  unfold ComplianceEngine.settled at counters
  dsimp only
  omega

/-- **Listed addresses are never cleared**, whatever the threads do. -/
theorem listed_never_cleared (hash : List UInt8 → Nat) (as : List (Tid × ComplianceCall)) :
    AllStates (step (screener hash)) ListedNeverCleared (ComplianceThreads.init Tid) as := by
  refine (allStates_of_invariant (fun _ _ _ (inv : ComplianceInv hash _) hstep => inv.step hstep)
    complianceInv_init as).imp ?_
  · intro s inv
    constructor
    · intro t q result since killed hpc
      have known := inv.fits t
      rw [hpc] at known
      exact known
    · intro t q level since hpc
      have known := inv.fits t
      rw [hpc] at known
      exact known

/-- **Every check is counted once**, under its result or as under way. -/
theorem checks_accounted [Fintype Tid] (hash : List UInt8 → Nat)
    (as : List (Tid × ComplianceCall)) :
    AllStates (step (screener hash)) ChecksAccounted (ComplianceThreads.init Tid) as := by
  have keep : ∀ (s : ComplianceThreads Tid) a s', ComplianceInv hash s ∧ ChecksAccounted s →
      step (screener hash) s a = some s' → ComplianceInv hash s' ∧ ChecksAccounted s' := by
    rintro s a s' ⟨inv, counted⟩ hstep
    exact ⟨inv.step hstep, counted.step inv hstep⟩
  refine (allStates_of_invariant keep ⟨complianceInv_init, ?_⟩ as).imp fun _ h => h.2
  · show 0 ≡ 0 + headcount CompliancePc.isCounted _ [MOD 2 ^ 64]
    rw [headcount_eq_zero fun _ => rfl]

end

end StopTrading.Security
