import StopTrading.Library.Threads
import StopTrading.Network.RateLimiter
import Mathlib

/-!
# The token bucket under contention

`acquirer` runs the calls of `try_acquire` one atomic operation at a time, over a clock that
every reading may advance.  A refill reads the time of the last one once, and then tries to
replace it by its own until it succeeds; the number of tokens that it stores afterwards was
computed from one loaded before.

* A thread leaves the retry loop only as long as nobody else has refilled
  (`leaves_of_expected`); after that it never does (`not_leaves_of_moved`).
* What is consumed between the load and the store comes back.

`refillSafe_of_undisturbed` says of a run in which neither happens that every thread leaves its
retry loop and that no more calls are admitted than there are tokens in the full bucket and
accrued since (`Conserved`).

### What is load-bearing

The retry loop of `refill` compares with a value that is loaded *outside* of it.  A thread that
loses the race once compares with the same old value for ever: running alone it does not change
the time of the last refill, and so this never becomes what it expects (`not_leaves_of_moved`).

The second defect is a lost update.  The number of tokens is loaded, increased and stored, with
the time of the last refill exchanged in between; what others consume meanwhile is stored back.
`Accounted` says that the tokens there are and those that were consumed are within what has
accrued, and the only step that can break it is that store, if something was consumed since the
load.

`Conserved` counts what has accrued in stretches, as the refills themselves do.  With a rate that
is not a whole number of thousandths a stretch is rounded, and two short ones may come to less
than a long one; `accrued_exact_le` bounds them in exact arithmetic.
-/

namespace StopTrading.Network.RateLimiter

open MachineInt Transition Threads TokenBucket

variable {F Tid : Type}

/-! ## The threads -/

/-- The bucket, the latest reading of the clock, and how many calls have returned true. -/
structure BucketShared (F : Type) where
  bucket : TokenBucket F
  clock : Nat
  admitted : Nat
  deriving Repr, DecidableEq

/-- Where a thread is in `try_acquire`, from `loadLast` to `storeTokens` in `refill`; named by
the operation it is about to perform. -/
inductive AcquirePc where
  | loadEnabled
  | countRequest
  | readClock
  | loadLast (now : Nat)
  | loadTokens (now last added : Nat)
  | swapLast (now last added current : Nat)
  | storeTokens (now newValue : Nat)
  | checkInterval (now : Nat)
  | loadCurrent
  | swapTokens (current : Nat)
  | reject
  deriving Repr, DecidableEq

/-- Whether a weak compare-exchange fails spuriously, and how far the clock has advanced. -/
structure AcquireChoice where
  failSpuriously : Bool
  elapsedMs : Nat
  deriving Repr, DecidableEq

namespace BucketShared

/-- A call returns true. -/
def grant (sh : BucketShared F) : BucketShared F := { sh with admitted := sh.admitted + 1 }

/-- `tokens` is replaced. -/
def setTokens (sh : BucketShared F) (tokens : Nat) : BucketShared F :=
  { sh with bucket := { sh.bucket with tokens := tokens } }

/-- `last_refill` is replaced. -/
def setLastRefill (sh : BucketShared F) (now : Nat) : BucketShared F :=
  { sh with bucket := { sh.bucket with lastRefill := now } }

/-- `new_value` of `refill`. -/
def refilled (sh : BucketShared F) (current added : Nat) : Nat :=
  min ((current + added) % 2 ^ 64) (sh.bucket.config.maxTokens * 1000 % 2 ^ 64)

end BucketShared

/-- **One atomic operation of a thread**, which calls `try_acquire` again and again. -/
def acquirer (ops : FloatOps F) (_ : Tid) (sh : BucketShared F) :
    AcquirePc → AcquireChoice → Option (BucketShared F × AcquirePc)
  | .loadEnabled, _ =>
      if sh.bucket.enabled = false then some (sh.grant, .loadEnabled)
      else some (sh, .countRequest)
  | .countRequest, _ => some ({ sh with bucket := sh.bucket.countRequest }, .readClock)
  | .readClock, c =>
      let now := sh.clock + c.elapsedMs
      some ({ sh with clock := now }, .loadLast now)
  | .loadLast now, _ =>
      let last := sh.bucket.lastRefill
      let elapsedMs := now - last
      if elapsedMs = 0 then some (sh, .checkInterval now)
      else
        let added := tokensToAdd ops sh.bucket.config elapsedMs
        if added = 0 then some (sh, .checkInterval now)
        else some (sh, .loadTokens now last added)
  | .loadTokens now last added, _ => some (sh, .swapLast now last added sh.bucket.tokens)
  | .swapLast now last added current, c =>
      if sh.bucket.lastRefill = last ∧ c.failSpuriously = false then
        some (sh.setLastRefill now, .storeTokens now (sh.refilled current added))
      else some (sh, .loadTokens now last added)
  | .storeTokens now newValue, _ => some (sh.setTokens newValue, .checkInterval now)
  | .checkInterval now, _ =>
      if u64 (now - sh.bucket.lastRefill) < sh.bucket.config.minIntervalMs then some (sh, .reject)
      else some (sh, .loadCurrent)
  | .loadCurrent, _ =>
      if sh.bucket.tokens < tokenCost then some (sh, .reject)
      else some (sh, .swapTokens sh.bucket.tokens)
  | .swapTokens current, c =>
      if sh.bucket.tokens = current ∧ c.failSpuriously = false then
        some ((sh.setTokens (current - tokenCost)).grant, .loadEnabled)
      else some (sh, .loadCurrent)
  | .reject, _ => some ({ sh with bucket := sh.bucket.reject.2 }, .loadEnabled)

/-- Threads and the bucket they share. -/
abbrev AcquireThreads (Tid F : Type) := State Tid AcquirePc (BucketShared F)

/-- A new bucket, every thread before its first call. -/
def AcquireThreads.init (Tid : Type) (config : RateLimitConfig F) (created : Nat) :
    AcquireThreads Tid F :=
  ⟨⟨.new config created, created, 0⟩, fun _ => .loadEnabled⟩

/-! ## What is promised -/

/-- The thread is in the retry loop of `refill`. -/
def AcquirePc.inRetryLoop : AcquirePc → Bool
  | .loadTokens .. | .swapLast .. | .storeTokens .. => true
  | _ => false

/-- A thread that runs alone is outside of the retry loop after `n` operations, if none of its
compare-exchanges fails spuriously. -/
def LeavesIn (ops : FloatOps F) (t : Tid) (n : Nat) (sh : BucketShared F) (p : AcquirePc) : Prop :=
  ∀ cs : List AcquireChoice, cs.length = n → (∀ c ∈ cs, c.failSpuriously = false) →
    ∃ sh' p', solo (acquirer ops) t sh p cs = some (sh', p') ∧ p'.inRetryLoop = false

/-- **A thread that runs alone leaves the retry loop.** -/
def Leaves (ops : FloatOps F) (t : Tid) (sh : BucketShared F) (p : AcquirePc) : Prop :=
  ∃ n, LeavesIn ops t n sh p

/-- The tokens accrued over some stretches of time, in thousandths. -/
def accrued (ops : FloatOps F) (config : RateLimitConfig F) (stretches : List Nat) : Nat :=
  (stretches.map (tokensToAdd ops config)).sum

/-- **No more calls are admitted** than there are tokens in the full bucket and accrued over
stretches of the time since its creation that do not overlap. -/
def Conserved (ops : FloatOps F) (created : Nat) (sh : BucketShared F) : Prop :=
  ∃ stretches, created + stretches.sum ≤ sh.clock ∧
    sh.admitted * tokenCost ≤
      sh.bucket.config.maxTokens * 1000 + accrued ops sh.bucket.config stretches

/-- **The refill is safe**: every thread in its retry loop leaves it once the others pause,
and tokens are conserved. -/
structure RefillSafe (ops : FloatOps F) (created : Nat) (s : AcquireThreads Tid F) : Prop where
  /-- nobody is caught in the loop -/
  leaves : ∀ t, (s.pc t).inRetryLoop = true → Leaves ops t s.shared (s.pc t)
  /-- and no token is handed out twice -/
  conserved : Conserved ops created s.shared

/-- The thread has read the time of the last refill and not yet replaced it. -/
def AcquirePc.isRefilling : AcquirePc → Bool
  | .loadTokens .. | .swapLast .. => true
  | _ => false

/-- The thread has replaced the time of the last refill and not yet stored its tokens. -/
def AcquirePc.isStoring : AcquirePc → Bool
  | .storeTokens .. => true
  | _ => false

/-- **Nobody is disturbed**: a refill succeeds while no other thread is refilling and no token
was consumed since it loaded their number, and a token is consumed while no other thread is
about to store their number. -/
def Undisturbed (s : AcquireThreads Tid F) (a : Tid × AcquireChoice) (_ : AcquireThreads Tid F) :
    Prop :=
  match s.pc a.1 with
  | .swapLast _ last _ current =>
      s.shared.bucket.lastRefill = last ∧ a.2.failSpuriously = false →
        current ≤ s.shared.bucket.tokens ∧ ∀ u, u ≠ a.1 → (s.pc u).isRefilling = false
  | .swapTokens current =>
      s.shared.bucket.tokens = current ∧ a.2.failSpuriously = false →
        ∀ u, u ≠ a.1 → (s.pc u).isStoring = false
  | _ => True

instance [Fintype Tid] [DecidableEq Tid] (s : AcquireThreads Tid F) (a : Tid × AcquireChoice)
    (s' : AcquireThreads Tid F) : Decidable (Undisturbed s a s') := by
  unfold Undisturbed
  split <;> infer_instance

/-! ## The retry loop -/

variable {ops : FloatOps F} {t : Tid} {sh sh' : BucketShared F} {p p' : AcquirePc}

/-- A thread outside of the loop has left it. -/
theorem leavesIn_zero (h : p.inRetryLoop = false) : LeavesIn ops t 0 sh p := by
  intro cs hlength _
  obtain rfl := List.length_eq_zero_iff.mp hlength
  exact ⟨sh, p, rfl, h⟩

/-- A thread leaves in one more operation, if it does wherever the next one leads. -/
theorem leavesIn_succ {n : Nat}
    (h : ∀ c : AcquireChoice, c.failSpuriously = false →
      ∃ sh' p', acquirer ops t sh p c = some (sh', p') ∧ LeavesIn ops t n sh' p') :
    LeavesIn ops t (n + 1) sh p := by
  intro cs hlength hstrong
  obtain ⟨c, cs, rfl⟩ := List.exists_cons_of_length_eq_add_one hlength
  rw [List.forall_mem_cons] at hstrong
  obtain ⟨sh', p', hprog, hleaves⟩ := h c hstrong.1
  obtain ⟨sh'', p'', hsolo, hout⟩ := hleaves cs (Nat.succ.inj hlength) hstrong.2
  refine ⟨sh'', p'', ?_, hout⟩
  rw [solo, hprog]
  exact hsolo

/-- From the store it is one operation, -/
theorem leavesIn_storeTokens (now newValue : Nat) :
    LeavesIn ops t 1 sh (.storeTokens now newValue) :=
  leavesIn_succ fun _ _ => ⟨_, _, rfl, leavesIn_zero rfl⟩

/-- from the exchange two, if it expects the right time, -/
theorem leavesIn_swapLast (now added current : Nat) :
    LeavesIn ops t 2 sh (.swapLast now sh.bucket.lastRefill added current) :=
  leavesIn_succ fun _ hc => ⟨_, _, if_pos ⟨rfl, hc⟩, leavesIn_storeTokens _ _⟩

/-- and from the load three. -/
theorem leavesIn_loadTokens (now added : Nat) :
    LeavesIn ops t 3 sh (.loadTokens now sh.bucket.lastRefill added) :=
  leavesIn_succ fun _ _ => ⟨_, _, rfl, leavesIn_swapLast now added sh.bucket.tokens⟩

/-- The time of the last refill that the thread expects, where it is refilling. -/
def AcquirePc.expected : AcquirePc → Option Nat
  | .loadTokens _ last _ | .swapLast _ last _ _ => some last
  | _ => none

/-- **A thread leaves the loop** if the last refill is the one it expects. -/
theorem leaves_of_expected (hloop : p.inRetryLoop = true)
    (h : ∀ last, p.expected = some last → sh.bucket.lastRefill = last) :
    Leaves ops t sh p := by
  cases p with
  | loadTokens now last added =>
      obtain rfl := h last rfl
      exact ⟨3, leavesIn_loadTokens now added⟩
  | swapLast now last added current =>
      obtain rfl := h last rfl
      exact ⟨2, leavesIn_swapLast now added current⟩
  | storeTokens now newValue => exact ⟨1, leavesIn_storeTokens now newValue⟩
  | loadEnabled | countRequest | readClock | loadLast | checkInterval | loadCurrent | swapTokens
  | reject => cases hloop

/-- The thread expects a time that is not the one of the last refill. -/
def Moved (sh : BucketShared F) (p : AcquirePc) : Prop :=
  ∃ last, p.expected = some last ∧ sh.bucket.lastRefill ≠ last

/-- A time that has moved on stays so. -/
theorem moved_acquirer {c : AcquireChoice} (hmoved : Moved sh p)
    (h : acquirer ops t sh p c = some (sh', p')) : Moved sh' p' := by
  obtain ⟨last, hexpected, hne⟩ := hmoved
  cases p with
  | loadTokens now last' added =>
      cases h
      exact ⟨last, hexpected, hne⟩
  | swapLast now last' added current =>
      obtain rfl : last' = last := Option.some.inj hexpected
      rw [acquirer, if_neg fun hsame => hne hsame.1] at h
      cases h
      exact ⟨last', rfl, hne⟩
  | loadEnabled | countRequest | readClock | loadLast | storeTokens | checkInterval | loadCurrent
  | swapTokens | reject => cases hexpected

/-- **Once another refill was faster, a thread never leaves the loop** on its own. -/
theorem not_leaves_of_moved (hmoved : Moved sh p) : ¬ Leaves ops t sh p := by
  rintro ⟨n, hleaves⟩
  obtain ⟨sh', p', hsolo, hout⟩ := hleaves (List.replicate n ⟨false, 0⟩) List.length_replicate
    fun c hc => by rw [List.eq_of_mem_replicate hc]
  have hstay : ∀ sh p c sh' p', Moved sh p → acquirer ops t sh p c = some (sh', p') →
      Moved sh' p' := fun _ _ _ _ _ => moved_acquirer
  obtain ⟨last, hexpected, -⟩ := solo_of_invariant hstay hmoved hsolo
  cases p' with
  | loadTokens | swapLast => cases hout
  | loadEnabled | countRequest | readClock | loadLast | storeTokens | checkInterval | loadCurrent
  | swapTokens | reject => cases hexpected

/-! ## The accounts -/

/-- The tokens of the full bucket and those accrued since. -/
def budget (ops : FloatOps F) (config : RateLimitConfig F) (stretches : List Nat) : Nat :=
  config.maxTokens * 1000 + accrued ops config stretches

/-- One stretch more has accrued. -/
theorem budget_concat (config : RateLimitConfig F) (stretches : List Nat) (d : Nat) :
    budget ops config (stretches ++ [d]) =
      budget ops config stretches + tokensToAdd ops config d := by
  unfold budget accrued
  rw [List.map_append, List.sum_append, List.map_singleton, List.sum_singleton, Nat.add_assoc]

/-- What a thread knows: what it has loaded, and that what it is about to store is covered. -/
def AcquirePc.Ok (ops : FloatOps F) (sh : BucketShared F) (limit : Nat) : AcquirePc → Prop
  | .loadLast now => now ≤ sh.clock
  | .loadTokens now last added | .swapLast now last added _ =>
      sh.bucket.lastRefill = last ∧ last < now ∧ now ≤ sh.clock ∧
        added = tokensToAdd ops sh.bucket.config (now - last)
  | .storeTokens _ newValue => newValue + sh.admitted * tokenCost ≤ limit
  | .swapTokens current => tokenCost ≤ current
  | _ => True

/-- What a thread knows stays true while others leave alone what it depends on. -/
theorem AcquirePc.Ok.frame {limit limit' : Nat} (h : p.Ok ops sh limit)
    (hclock : sh.clock ≤ sh'.clock)
    (hrefilling : p.isRefilling = true →
      sh'.bucket.lastRefill = sh.bucket.lastRefill ∧ sh'.bucket.config = sh.bucket.config)
    (hstoring : p.isStoring = true → sh'.admitted = sh.admitted ∧ limit ≤ limit') :
    p.Ok ops sh' limit' := by
  cases p with
  | loadLast now => exact le_trans h hclock
  | loadTokens | swapLast =>
      obtain ⟨hlast, hlt, hnow, hadded⟩ := h
      obtain ⟨hlast', hconfig⟩ := hrefilling rfl
      exact ⟨hlast'.trans hlast, hlt, hnow.trans hclock, hconfig ▸ hadded⟩
  | storeTokens now newValue =>
      obtain ⟨hadmitted, hlimit⟩ := hstoring rfl
      unfold AcquirePc.Ok at h ⊢
      rw [hadmitted]
      exact h.trans hlimit
  | swapTokens current => exact h
  | loadEnabled | countRequest | readClock | checkInterval | loadCurrent | reject => exact trivial

/-- **The tokens are accounted for**: those in the bucket and those consumed are covered, and
the stretches reach up to the last refill. -/
structure Accounted (ops : FloatOps F) (created : Nat) (stretches : List Nat)
    (s : AcquireThreads Tid F) : Prop where
  /-- the bucket is on -/
  enabled : s.shared.bucket.enabled = true
  /-- the stretches lead up to the last refill -/
  reach : created + stretches.sum = s.shared.bucket.lastRefill
  /-- which is not in the future -/
  clock : s.shared.bucket.lastRefill ≤ s.shared.clock
  /-- there is no token that has not accrued -/
  covered : s.shared.bucket.tokens + s.shared.admitted * tokenCost ≤
    budget ops s.shared.bucket.config stretches
  /-- also in the hands of the threads -/
  pcs : ∀ t, (s.pc t).Ok ops s.shared (budget ops s.shared.bucket.config stretches)

variable {created : Nat} {stretches : List Nat} {s s' : AcquireThreads Tid F}

/-- Where tokens are accounted for the refill is safe. -/
theorem Accounted.refillSafe (h : Accounted ops created stretches s) :
    RefillSafe ops created s where
  leaves := fun t hloop => by
    refine leaves_of_expected hloop fun last hexpected => ?_
    have hp := h.pcs t
    cases hpc : s.pc t with
    | loadTokens now last' added | swapLast now last' added current =>
        rw [hpc] at hexpected hp
        obtain rfl : last' = last := Option.some.inj hexpected
        exact hp.1
    | loadEnabled | countRequest | readClock | loadLast | storeTokens | checkInterval
    | loadCurrent | swapTokens | reject =>
        rw [hpc] at hexpected
        cases hexpected
  conserved :=
    ⟨stretches, h.reach.trans_le h.clock, (Nat.le_add_left _ _).trans h.covered⟩

variable [DecidableEq Tid]

/-- An operation that leaves the accounts alone. -/
theorem Accounted.keep (h : Accounted ops created stretches s) {t : Tid}
    (henabled : sh'.bucket.enabled = s.shared.bucket.enabled)
    (hlast : sh'.bucket.lastRefill = s.shared.bucket.lastRefill)
    (hconfig : sh'.bucket.config = s.shared.bucket.config)
    (htokens : sh'.bucket.tokens = s.shared.bucket.tokens)
    (hadmitted : sh'.admitted = s.shared.admitted) (hclock : s.shared.clock ≤ sh'.clock)
    (hp : p'.Ok ops sh' (budget ops s.shared.bucket.config stretches)) :
    Accounted ops created stretches ⟨sh', Function.update s.pc t p'⟩ where
  enabled := henabled.trans h.enabled
  reach := h.reach.trans hlast.symm
  clock := hlast.trans_le (h.clock.trans hclock)
  covered := by
    change sh'.bucket.tokens + sh'.admitted * tokenCost ≤ budget ops sh'.bucket.config stretches
    rw [htokens, hadmitted, hconfig]
    exact h.covered
  pcs := by
    change ∀ u, (Function.update s.pc t p' u).Ok ops sh' (budget ops sh'.bucket.config stretches)
    rw [hconfig]
    exact forall_pc_update hp fun u _ =>
      (h.pcs u).frame hclock (fun _ => ⟨hlast, hconfig⟩) fun _ => ⟨hadmitted, le_rfl⟩

/-- The thread only moves on. -/
theorem Accounted.move (h : Accounted ops created stretches s) {t : Tid}
    (hp : p'.Ok ops s.shared (budget ops s.shared.bucket.config stretches)) :
    Accounted ops created stretches ⟨s.shared, Function.update s.pc t p'⟩ :=
  h.keep rfl rfl rfl rfl rfl le_rfl hp

/-- **The time of the last refill is replaced**: the stretch up to now has accrued. -/
theorem Accounted.swapLast (h : Accounted ops created stretches s) {t : Tid}
    {now last added current : Nat} (hpc : s.pc t = .swapLast now last added current)
    (hcurrent : current ≤ s.shared.bucket.tokens)
    (halone : ∀ u, u ≠ t → (s.pc u).isRefilling = false) :
    Accounted ops created (stretches ++ [now - last])
      ⟨s.shared.setLastRefill now,
        Function.update s.pc t (.storeTokens now (s.shared.refilled current added))⟩ := by
  have hp := h.pcs t
  rw [hpc] at hp
  obtain ⟨rfl, hlt, hnow, hadded⟩ := hp
  have hgrows :
      budget ops s.shared.bucket.config (stretches ++ [now - s.shared.bucket.lastRefill]) =
        budget ops s.shared.bucket.config stretches + added := by
    rw [budget_concat, hadded]
  have hcovered := h.covered
  have hreach := h.reach
  refine ⟨h.enabled, ?_, hnow, ?_, ?_⟩
  · change created + (stretches ++ [now - s.shared.bucket.lastRefill]).sum = now
    rw [List.sum_append, List.sum_singleton]
    omega
  · change s.shared.bucket.tokens + s.shared.admitted * tokenCost ≤ budget ops
      s.shared.bucket.config (stretches ++ [now - s.shared.bucket.lastRefill])
    omega
  · change ∀ u, (Function.update s.pc t _ u).Ok ops _ (budget ops s.shared.bucket.config
      (stretches ++ [now - s.shared.bucket.lastRefill]))
    rw [hgrows]
    refine forall_pc_update ?_ fun u hu => (h.pcs u).frame le_rfl (fun hrefilling => ?_)
      fun _ => ⟨rfl, Nat.le_add_right _ _⟩
    · -- the value was computed from no more tokens than there are now
      have hvalue : s.shared.refilled current added ≤ current + added :=
        (min_le_left _ _).trans (Nat.mod_le _ _)
      change s.shared.refilled current added + s.shared.admitted * tokenCost ≤ _
      omega
    · rw [halone u hu] at hrefilling
      cases hrefilling

/-- The tokens are stored. -/
theorem Accounted.storeTokens (h : Accounted ops created stretches s) {t : Tid}
    {now newValue : Nat} (hpc : s.pc t = .storeTokens now newValue) :
    Accounted ops created stretches
      ⟨s.shared.setTokens newValue, Function.update s.pc t (.checkInterval now)⟩ := by
  have hp := h.pcs t
  rw [hpc] at hp
  exact ⟨h.enabled, h.reach, h.clock, hp, forall_pc_update trivial fun u _ =>
    (h.pcs u).frame le_rfl (fun _ => ⟨rfl, rfl⟩) fun _ => ⟨rfl, le_rfl⟩⟩

/-- **A token is consumed.** -/
theorem Accounted.swapTokens (h : Accounted ops created stretches s) {t : Tid}
    {current newValue : Nat} (hsame : s.shared.bucket.tokens = current)
    (hcost : newValue + tokenCost = current)
    (halone : ∀ u, u ≠ t → (s.pc u).isStoring = false) :
    Accounted ops created stretches
      ⟨(s.shared.setTokens newValue).grant, Function.update s.pc t .loadEnabled⟩ := by
  refine ⟨h.enabled, h.reach, h.clock, ?_, ?_⟩
  · have hcovered := h.covered
    change newValue + (s.shared.admitted + 1) * tokenCost ≤
      budget ops s.shared.bucket.config stretches
    rw [Nat.add_mul, Nat.one_mul]
    omega
  · refine forall_pc_update trivial fun u hu =>
      (h.pcs u).frame le_rfl (fun _ => ⟨rfl, rfl⟩) fun hstoring => ?_
    rw [halone u hu] at hstoring
    cases hstoring

/-- **One operation keeps the accounts**, if nobody is disturbed. -/
theorem accounted_step {a : Tid × AcquireChoice} (h : Accounted ops created stretches s)
    (hstep : step (acquirer ops) s a = some s') (guard : Undisturbed s a s') :
    ∃ stretches', Accounted ops created stretches' s' := by
  obtain ⟨t, c⟩ := a
  obtain ⟨sh', p', hprog, rfl⟩ := step_eq_some.mp hstep
  unfold Undisturbed at guard
  dsimp only at hprog guard
  have hp := h.pcs t
  -- only the two exchanges and the store of the tokens change the account
  cases hpc : s.pc t with
  | loadEnabled =>
      rw [hpc, acquirer, h.enabled, if_neg (by decide)] at hprog
      cases hprog
      exact ⟨stretches, h.move trivial⟩
  | countRequest =>
      rw [hpc] at hprog
      cases hprog
      exact ⟨stretches, h.keep rfl rfl rfl rfl rfl le_rfl trivial⟩
  | readClock =>
      rw [hpc] at hprog
      cases hprog
      exact ⟨stretches, h.keep rfl rfl rfl rfl rfl (Nat.le_add_right _ _) (le_refl _)⟩
  | loadLast now =>
      rw [hpc] at hprog hp
      simp only [acquirer] at hprog
      split_ifs at hprog with helapsed hadded <;> cases hprog
      · exact ⟨stretches, h.move trivial⟩
      · exact ⟨stretches, h.move trivial⟩
      · exact ⟨stretches, h.move ⟨rfl, by omega, hp, rfl⟩⟩
  | loadTokens now last added =>
      rw [hpc] at hprog hp
      cases hprog
      exact ⟨stretches, h.move hp⟩
  | swapLast now last added current =>
      rw [hpc] at hprog hp guard
      rw [acquirer] at hprog
      split_ifs at hprog with hswap <;> cases hprog
      · -- the time of the refill is taken here, its tokens are stored with the next operation
        obtain ⟨hcurrent, halone⟩ := guard hswap
        exact ⟨_, h.swapLast hpc hcurrent halone⟩
      · exact ⟨stretches, h.move hp⟩
  | storeTokens now newValue =>
      rw [hpc] at hprog
      cases hprog
      exact ⟨stretches, h.storeTokens hpc⟩
  | checkInterval now =>
      rw [hpc, acquirer] at hprog
      split_ifs at hprog <;> cases hprog <;> exact ⟨stretches, h.move trivial⟩
  | loadCurrent =>
      rw [hpc, acquirer] at hprog
      split_ifs at hprog with hcost <;> cases hprog
      · exact ⟨stretches, h.move trivial⟩
      · exact ⟨stretches, h.move (Nat.not_lt.mp hcost)⟩
  | swapTokens current =>
      rw [hpc] at hprog hp guard
      have hcost : current - tokenCost + tokenCost = current := Nat.sub_add_cancel hp
      rw [acquirer] at hprog
      generalize current - tokenCost = newValue at hprog hcost
      split_ifs at hprog with hswap <;> cases hprog
      · exact ⟨stretches, h.swapTokens hswap.1 hcost (guard hswap)⟩
      · exact ⟨stretches, h.move trivial⟩
  | reject =>
      rw [hpc] at hprog
      cases hprog
      exact ⟨stretches, h.keep rfl rfl rfl rfl rfl le_rfl trivial⟩

omit [DecidableEq Tid] in
/-- A new bucket is full, and nobody has come. -/
theorem accounted_init (ops : FloatOps F) (config : RateLimitConfig F) (created : Nat) :
    Accounted ops created [] (AcquireThreads.init Tid config created) where
  enabled := rfl
  reach := rfl
  clock := le_rfl
  covered := by
    have hfull : config.maxTokens * 1000 % 2 ^ 64 ≤ config.maxTokens * 1000 := Nat.mod_le _ _
    simpa [AcquireThreads.init, TokenBucket.new, budget, accrued] using hfull
  pcs := fun _ => trivial

/-- **The refill is safe where nobody is disturbed**, for any threads, every interleaving of
their calls and every behaviour of the clock. -/
theorem refillSafe_of_undisturbed (ops : FloatOps F) (config : RateLimitConfig F) (created : Nat)
    (run : List (Tid × AcquireChoice))
    (guard : AllSteps (step (acquirer ops)) Undisturbed (AcquireThreads.init Tid config created)
      run) :
    AllStates (step (acquirer ops)) (RefillSafe ops created)
      (AcquireThreads.init Tid config created) run := by
  have hsafe : ∀ s : AcquireThreads Tid F, (∃ stretches, Accounted ops created stretches s) →
      RefillSafe ops created s := fun _ ⟨_, inv⟩ => inv.refillSafe
  exact AllStates.of_invariant hsafe
    (fun _ _ _ ⟨_, inv⟩ hstep hguard => accounted_step inv hstep hguard)
    ⟨[], accounted_init ops config created⟩ guard

/-- The number of an operation by a thread, none failing spuriously, the clock standing still. -/
def turns (t : Bool) (n : Nat) : List (Bool × AcquireChoice) := List.replicate n (t, ⟨false, 0⟩)

/-- The clock advances by a millisecond as the thread reads it. -/
def tick (t : Bool) : Bool × AcquireChoice := (t, ⟨false, 1⟩)

/-- One token, one more in a second, no interval between requests. -/
def single : RateLimitConfig Rat := ⟨1, 1, 0⟩

/-- A thread refills and consumes the one token; another one comes after it, finds none and is
rejected. -/
def inTurn : List (Bool × AcquireChoice) :=
  turns false 2 ++ tick false :: turns false 7 ++ turns true 9

/-- One thread after the other disturbs nobody. -/
theorem refillSafe_inTurn :
    AllStates (step (acquirer .exact)) (RefillSafe .exact 0) (AcquireThreads.init Bool single 0)
      inTurn :=
  refillSafe_of_undisturbed .exact single 0 inTurn (by decide +kernel)

/-! ## Time that has passed -/

/-- **In exact arithmetic** no more is accrued over some stretches of time than the rate for
all of them. -/
theorem accrued_exact_le {config : RateLimitConfig Rat} (hrate : 0 ≤ config.refillRate)
    (stretches : List Nat) :
    (accrued .exact config stretches : Rat) ≤ config.refillRate * stretches.sum := by
  induction stretches with
  | nil => simp [accrued]
  | cons d stretches ih =>
      have hone : (tokensToAdd .exact config d : Rat) ≤ config.refillRate * d := by
        have hlong : (d : Rat) * config.refillRate / 1000 * 1000 = config.refillRate * d := by ring
        have hpos : 0 ≤ (d : Rat) * config.refillRate / 1000 * 1000 := by
          rw [hlong]
          exact mul_nonneg hrate (Nat.cast_nonneg d)
        rw [← hlong]
        exact FloatOps.exact_toU64_le hpos
      have hsum : (accrued .exact config (d :: stretches) : Rat) =
          tokensToAdd .exact config d + accrued .exact config stretches := by
        simp [accrued]
      rw [hsum, List.sum_cons, Nat.cast_add, mul_add]
      exact add_le_add hone ih

/-- What that makes of the bound on the admitted calls. -/
theorem Conserved.exact {created : Nat} {sh : BucketShared Rat}
    (hrate : 0 ≤ sh.bucket.config.refillRate) (h : Conserved .exact created sh) :
    ((sh.admitted * tokenCost : Nat) : Rat) ≤
      sh.bucket.config.maxTokens * 1000 +
        sh.bucket.config.refillRate * (sh.clock - created : Nat) := by
  obtain ⟨stretches, hreach, hbound⟩ := h
  have htime : ((stretches.sum : Nat) : Rat) ≤ (sh.clock - created : Nat) :=
    Nat.cast_le.mpr (by omega)
  have haccrued := accrued_exact_le hrate stretches
  calc ((sh.admitted * tokenCost : Nat) : Rat)
      ≤ ((sh.bucket.config.maxTokens * 1000 +
          accrued .exact sh.bucket.config stretches : Nat) : Rat) :=
        Nat.cast_le.mpr hbound
    _ = sh.bucket.config.maxTokens * 1000 + accrued .exact sh.bucket.config stretches := by
        push_cast
        rfl
    _ ≤ _ := add_le_add_right (haccrued.trans (mul_le_mul_of_nonneg_left htime hrate)) _

/-- Two threads refill; the second one was slower. -/
def slower : List (Bool × AcquireChoice) :=
  turns false 2 ++ tick false :: turns false 1 ++ turns true 2 ++ tick true :: turns true 3

/-- A thread consumes the token while another one is refilling, which then has it again. -/
def restored : List (Bool × AcquireChoice) :=
  turns false 5 ++ turns true 2 ++ tick true :: turns true 3 ++ turns false 2 ++ turns true 4

/-- What is left of a run at its end. -/
theorem exists_end (rounds : List (Bool × AcquireChoice))
    (P : AcquireThreads Bool Rat → Bool)
    (h : (run (step (acquirer .exact)) (AcquireThreads.init Bool single 0) rounds).any P = true) :
    ∃ s, run (step (acquirer .exact)) (AcquireThreads.init Bool single 0) rounds = some s ∧
      P s = true := by
  cases hrun : run (step (acquirer .exact)) (AcquireThreads.init Bool single 0) rounds with
  | none =>
      rw [hrun] at h
      cases h
  | some s =>
      rw [hrun] at h
      exact ⟨s, rfl, h⟩

/-- **Neither is true of every run**: the slower of two threads stays in its retry loop for ever,
and one token is consumed twice within a millisecond. -/
theorem not_forall_refillSafe :
    (∃ rounds, ¬ AllStates (step (acquirer .exact))
      (fun s => ∀ t, (s.pc t).inRetryLoop = true → Leaves .exact t s.shared (s.pc t))
      (AcquireThreads.init Bool single 0) rounds) ∧
    ∃ rounds, ¬ AllStates (step (acquirer .exact)) (fun s => Conserved .exact 0 s.shared)
      (AcquireThreads.init Bool single 0) rounds := by
  constructor
  · refine ⟨slower, fun h => ?_⟩
    obtain ⟨s, hrun, hend⟩ := exists_end slower
      (fun s => s.pc false = .loadTokens 1 0 1 ∧ s.shared.bucket.lastRefill = 2)
      (by decide +kernel)
    obtain ⟨hpc, hlast⟩ := of_decide_eq_true hend
    have hmoved : Moved s.shared (s.pc false) := by
      rw [hpc]
      exact ⟨0, rfl, by rw [hlast]; decide⟩
    exact not_leaves_of_moved hmoved (h.of_run hrun false (by rw [hpc]; rfl))
  · refine ⟨restored, fun h => ?_⟩
    obtain ⟨s, hrun, hend⟩ := exists_end restored
      (fun s => s.shared.bucket.config = single ∧ s.shared.clock = 1 ∧ s.shared.admitted = 2)
      (by decide +kernel)
    obtain ⟨hconfig, hclock, hadmitted⟩ := of_decide_eq_true hend
    have hconserved := (h.of_run hrun).exact (by rw [hconfig]; decide)
    rw [hconfig, hclock, hadmitted] at hconserved
    revert hconserved
    decide +kernel

end StopTrading.Network.RateLimiter
