import StopTrading.Library.FloatOps
import StopTrading.Library.MachineInt
import StopTrading.Library.Transition

/-!
# The token bucket of the rate limiter

`TokenBucket` counts tokens in thousandths and is refilled by the time that has passed.  A
call of `try_acquire` first refills and then looks at the time since the last refill: with
less than `min_interval_ms` it is rejected.  A refill that adds anything makes that time
zero.  So a call is admitted only if the refill it begins with adds nothing
(`tryAcquire_eq_true_iff`), and a bucket that gains something every millisecond admits
nobody (`allSteps_rejected`).

The clock is an arbitrary reading that a call is given, and the floating-point operations
of the refill are uninterpreted.

### What is load-bearing

The order of two lines.  `try_acquire` refills first, and a refill that adds anything sets the
time of the last refill to now; then the time since the last refill is compared with the
interval.  So the test for an interval between *requests* measures the time since a *refill*, and
a bucket that is refilled in time never passes it.

`Refills` is the only thing that is used of the floating-point operations: whether so much time
adds something, a yes or no.  The condition of `tryAcquire_eq_true_iff` is on that, for the
reading of the clock at hand.
-/

namespace StopTrading.Network.RateLimiter

open MachineInt Transition

universe u

variable {F : Type u}

/-- `RateLimitConfig`. -/
structure RateLimitConfig (F : Type u) where
  maxTokens : Nat
  refillRate : F
  minIntervalMs : Nat
  deriving Repr, DecidableEq

/-- `TokenBucket`; the tokens are scaled by 1000. -/
structure TokenBucket (F : Type u) where
  tokens : Nat
  lastRefill : Nat
  config : RateLimitConfig F
  enabled : Bool
  totalRequests : Nat
  totalRejections : Nat
  deriving Repr, DecidableEq

namespace TokenBucket

/-- `TokenBucket::new` at a reading of the clock. -/
def new (config : RateLimitConfig F) (now : Nat) : TokenBucket F where
  tokens := config.maxTokens * 1000 % 2 ^ 64
  lastRefill := now
  config := config
  enabled := true
  totalRequests := 0
  totalRejections := 0

/-- `tokens_to_add` of `refill`. -/
def tokensToAdd (ops : FloatOps F) (config : RateLimitConfig F) (elapsedMs : Nat) : Nat :=
  ops.toU64 (ops.mul
    (ops.div (ops.mul (ops.ofU64 elapsedMs) config.refillRate) (ops.lit 1000)) (ops.lit 1000))

/-- `refill`. -/
def refill (ops : FloatOps F) (b : TokenBucket F) (now : Nat) : TokenBucket F :=
  let elapsedMs := now - b.lastRefill
  if elapsedMs = 0 then b
  else
    let added := tokensToAdd ops b.config elapsedMs
    if added = 0 then b
    else
      { b with
        tokens := min ((b.tokens + added) % 2 ^ 64) (b.config.maxTokens * 1000 % 2 ^ 64)
        lastRefill := now }

/-- What a token costs. -/
def tokenCost : Nat := 1000

/-- A request is counted. -/
def countRequest (b : TokenBucket F) : TokenBucket F :=
  { b with totalRequests := (b.totalRequests + 1) % 2 ^ 64 }

/-- A rejection is counted. -/
def reject (b : TokenBucket F) : Bool × TokenBucket F :=
  (false, { b with totalRejections := (b.totalRejections + 1) % 2 ^ 64 })

/-- `try_acquire` at a reading of the clock. -/
def tryAcquire (ops : FloatOps F) (b : TokenBucket F) (now : Nat) : Bool × TokenBucket F :=
  if b.enabled = false then (true, b)
  else
    let b := b.countRequest.refill ops now
    -- the last refill is read after this call's own
    if u64 (now - b.lastRefill) < b.config.minIntervalMs then b.reject
    else if b.tokens < tokenCost then b.reject
    else (true, { b with tokens := b.tokens - tokenCost })

/-! ## What a refill does -/

/-- A refill leaves the configuration, -/
@[simp] theorem refill_config (ops : FloatOps F) (b : TokenBucket F) (now : Nat) :
    (b.refill ops now).config = b.config := by
  simp only [refill]
  split_ifs <;> rfl

/-- and the switch. -/
@[simp] theorem refill_enabled (ops : FloatOps F) (b : TokenBucket F) (now : Nat) :
    (b.refill ops now).enabled = b.enabled := by
  simp only [refill]
  split_ifs <;> rfl

/-- The refill adds something. -/
def Refills (ops : FloatOps F) (b : TokenBucket F) (now : Nat) : Prop :=
  b.lastRefill < now ∧ tokensToAdd ops b.config (now - b.lastRefill) ≠ 0

instance (ops : FloatOps F) (b : TokenBucket F) (now : Nat) : Decidable (b.Refills ops now) :=
  inferInstanceAs (Decidable (_ ∧ _))

/-- A refill that adds something. -/
theorem refill_of_refills {ops : FloatOps F} {b : TokenBucket F} {now : Nat}
    (h : b.Refills ops now) :
    b.refill ops now =
      { b with
        tokens := min ((b.tokens + tokensToAdd ops b.config (now - b.lastRefill)) % 2 ^ 64)
          (b.config.maxTokens * 1000 % 2 ^ 64)
        lastRefill := now } := by
  have helapsed : now - b.lastRefill ≠ 0 := Nat.sub_ne_zero_of_lt h.1
  simp only [refill, if_neg helapsed, if_neg h.2]

/-- A refill that adds nothing does nothing. -/
theorem refill_of_not_refills {ops : FloatOps F} {b : TokenBucket F} {now : Nat}
    (h : ¬ b.Refills ops now) : b.refill ops now = b := by
  simp only [refill]
  split_ifs with helapsed hadded
  · rfl
  · rfl
  · exact absurd ⟨Nat.lt_of_sub_ne_zero helapsed, hadded⟩ h

/-- The last refill is never in the future. -/
theorem refill_lastRefill_le (ops : FloatOps F) {b : TokenBucket F} {now : Nat}
    (h : b.lastRefill ≤ now) : (b.refill ops now).lastRefill ≤ now := by
  by_cases hrefills : b.Refills ops now
  · rw [refill_of_refills hrefills]
  · rw [refill_of_not_refills hrefills]
    exact h

/-- `refill` neither reads nor writes the number of requests. -/
theorem refill_countRequest (ops : FloatOps F) (b : TokenBucket F) (now : Nat) :
    b.countRequest.refill ops now = (b.refill ops now).countRequest := by
  by_cases h : b.Refills ops now
  · rw [refill_of_refills (b := b.countRequest) h, refill_of_refills h]
    rfl
  · rw [refill_of_not_refills (b := b.countRequest) h, refill_of_not_refills h]

/-! ## What a call answers -/

/-- **The answer of an enabled bucket**: yes, if the last refill is long enough ago and there
is a token, both after the refill. -/
theorem tryAcquire_fst {ops : FloatOps F} {b : TokenBucket F} {now : Nat}
    (enabled : b.enabled = true) (refilled : b.lastRefill ≤ now) (bound : now < 2 ^ 64) :
    (b.tryAcquire ops now).1 = true ↔
      (b.refill ops now).lastRefill + b.config.minIntervalMs ≤ now ∧
        tokenCost ≤ (b.refill ops now).tokens := by
  have hlast := refill_lastRefill_le ops refilled
  have hsince : u64 ((now : Int) - (b.refill ops now).lastRefill) =
      now - (b.refill ops now).lastRefill := by
    rw [← Nat.cast_sub hlast]
    exact u64_natCast (by omega)
  simp only [tryAcquire, refill_countRequest]
  simp only [countRequest, reject, refill_config, hsince]
  split_ifs with hdisabled hinterval htokens
  -- disabled; too soon after the last refill; no token; a token
  · exact absurd (enabled.symm.trans hdisabled) (by decide)
  · exact iff_of_false (by decide) fun h => by omega
  · exact iff_of_false (by decide) fun h => by omega
  · exact iff_of_true rfl ⟨by omega, by omega⟩

/-- The last refill is long enough ago, whatever the refill of the call does. -/
def Spaced (ops : FloatOps F) (b : TokenBucket F) (now : Nat) : Prop :=
  b.config.minIntervalMs = 0 ∨
    (¬ b.Refills ops now ∧ b.lastRefill + b.config.minIntervalMs ≤ now)

instance (ops : FloatOps F) (b : TokenBucket F) (now : Nat) : Decidable (b.Spaced ops now) :=
  inferInstanceAs (Decidable (_ ∨ _))

/-- A refill that adds something leaves no time since the last refill. -/
theorem refill_lastRefill_add_le_iff {ops : FloatOps F} {b : TokenBucket F} {now : Nat}
    (refilled : b.lastRefill ≤ now) :
    (b.refill ops now).lastRefill + b.config.minIntervalMs ≤ now ↔ b.Spaced ops now := by
  unfold Spaced
  by_cases h : b.Refills ops now
  · -- the last refill is now, so only an interval of zero has passed since
    rw [refill_of_refills h]
    constructor
    · intro hle
      have hinterval : now + b.config.minIntervalMs ≤ now := hle
      exact Or.inl (by omega)
    · rintro (hzero | ⟨hnot, -⟩)
      · exact le_of_eq (by rw [hzero, Nat.add_zero])
      · exact absurd h hnot
  · rw [refill_of_not_refills h]
    constructor
    · intro hle
      exact Or.inr ⟨h, hle⟩
    · rintro (hzero | ⟨-, hle⟩)
      · rw [hzero]
        exact refilled
      · exact hle

/-- **When a call is admitted.** -/
theorem tryAcquire_eq_true_iff {ops : FloatOps F} {b : TokenBucket F} {now : Nat}
    (enabled : b.enabled = true) (refilled : b.lastRefill ≤ now) (bound : now < 2 ^ 64) :
    (b.tryAcquire ops now).1 = true ↔
      b.Spaced ops now ∧ tokenCost ≤ (b.refill ops now).tokens := by
  rw [tryAcquire_fst enabled refilled bound, refill_lastRefill_add_le_iff refilled]

/-- What a call leaves of an enabled bucket, apart from its counts. -/
theorem tryAcquire_snd (ops : FloatOps F) {b : TokenBucket F} (enabled : b.enabled = true)
    (now : Nat) :
    (b.tryAcquire ops now).2.enabled = true ∧ (b.tryAcquire ops now).2.config = b.config ∧
      (b.tryAcquire ops now).2.lastRefill = (b.refill ops now).lastRefill := by
  simp only [tryAcquire, refill_countRequest]
  simp only [countRequest, reject, refill_config, refill_enabled]
  split_ifs with hdisabled
  · exact absurd (enabled.symm.trans hdisabled) (by decide)
  · exact ⟨enabled, rfl, rfl⟩
  · exact ⟨enabled, rfl, rfl⟩
  · exact ⟨enabled, rfl, rfl⟩

end TokenBucket

/-! ## Histories of calls -/

/-- A bucket, the last reading of its clock and the time of the last admitted call. -/
structure History (F : Type u) where
  bucket : TokenBucket F
  clock : Nat
  lastAdmitted : Option Nat
  deriving Repr, DecidableEq

namespace History

open TokenBucket

/-- A bucket created at a reading of the clock. -/
def start (config : RateLimitConfig F) (now : Nat) : History F := ⟨.new config now, now, none⟩

/-- One call of `try_acquire`. -/
def step (ops : FloatOps F) (h : History F) (now : Nat) : Option (History F) :=
  let (admitted, bucket) := h.bucket.tryAcquire ops now
  some ⟨bucket, now, if admitted = true then some now else h.lastAdmitted⟩

/-- The clock is a 64-bit word that never runs backwards. -/
def Valid (h : History F) (now : Nat) (_ : History F) : Prop := h.clock ≤ now ∧ now < 2 ^ 64

instance (h : History F) (now : Nat) (h' : History F) : Decidable (Valid h now h') :=
  inferInstanceAs (Decidable (_ ∧ _))

/-- **A compliant call**: at least `min_interval_ms` after the previous admitted one, with a
token there once the bucket is refilled to the time of the call. -/
def Compliant (ops : FloatOps F) (h : History F) (now : Nat) : Prop :=
  (∀ t ∈ h.lastAdmitted, t + h.bucket.config.minIntervalMs ≤ now) ∧
    tokenCost ≤ (h.bucket.refill ops now).tokens

instance (ops : FloatOps F) (h : History F) (now : Nat) : Decidable (Compliant ops h now) :=
  inferInstanceAs (Decidable (_ ∧ _))

/-- A compliant call is admitted. -/
def Admits (ops : FloatOps F) (h : History F) (now : Nat) (_ : History F) : Prop :=
  Compliant ops h now → (h.bucket.tryAcquire ops now).1 = true

instance (ops : FloatOps F) (h : History F) (now : Nat) (h' : History F) :
    Decidable (Admits ops h now h') :=
  inferInstanceAs (Decidable (_ → _))

/-- A compliant call comes long enough after the last refill and its own adds nothing. -/
def SpacedIfCompliant (ops : FloatOps F) (h : History F) (now : Nat) (_ : History F) : Prop :=
  Compliant ops h now → h.bucket.Spaced ops now

/-- A bucket that is enabled and was refilled in the past. -/
structure Inv (h : History F) : Prop where
  /-- the bucket is on -/
  enabled : h.bucket.enabled = true
  /-- and was refilled before -/
  lastRefill : h.bucket.lastRefill ≤ h.clock

/-- A new bucket was refilled when it was made. -/
theorem inv_start (config : RateLimitConfig F) (now : Nat) : Inv (start config now) :=
  ⟨rfl, le_rfl⟩

/-- A call keeps it so. -/
theorem inv_step {ops : FloatOps F} {h h' : History F} {now : Nat} (inv : Inv h)
    (hstep : h.step ops now = some h') (valid : Valid h now h') :
    Inv h' ∧ h'.bucket.config = h.bucket.config := by
  obtain rfl : _ = h' := Option.some.inj hstep
  obtain ⟨henabled, hconfig, hlast⟩ := tryAcquire_snd ops inv.enabled now
  refine ⟨⟨henabled, ?_⟩, hconfig⟩
  exact hlast.trans_le (refill_lastRefill_le ops (inv.lastRefill.trans valid.1))

/-- **One call** admits as promised exactly if it is spaced. -/
theorem admits_iff {ops : FloatOps F} {h h' : History F} {now : Nat} (inv : Inv h)
    (valid : Valid h now h') : Admits ops h now h' ↔ SpacedIfCompliant ops h now h' := by
  unfold Admits SpacedIfCompliant
  rw [tryAcquire_eq_true_iff inv.enabled (inv.lastRefill.trans valid.1) valid.2]
  exact ⟨fun h hc => (h hc).1, fun h hc => ⟨h hc, hc.2⟩⟩

/-- **Which histories admit every compliant call**: the ones in which no compliant call
comes within the interval after a refill, its own included. -/
theorem allSteps_admits_iff (ops : FloatOps F) (config : RateLimitConfig F) (created : Nat)
    (calls : List Nat)
    (valid : AllSteps (step ops) Valid (start config created) calls) :
    AllSteps (step ops) (Admits ops) (start config created) calls ↔
      AllSteps (step ops) (SpacedIfCompliant ops) (start config created) calls :=
  allSteps_iff_of_step_iff
    (fun _ _ _ (inv : Inv _) hstep hvalid _ => (inv_step inv hstep hvalid).1)
    (fun _ _ _ inv _ hvalid => admits_iff inv hvalid) calls (inv_start config created) valid

/-- A burst of two tokens, a token in 64 seconds, 50 ms between requests. -/
def slow : RateLimitConfig Rat := ⟨2, 1 / 64, 50⟩

/-- At the first call nothing is added and the call is admitted.  The second one, 50 ms later,
has a token waiting and is rejected: its refill adds a thousandth. -/
theorem not_forall_admits :
    ¬ ∀ calls : List Nat, AllSteps (step .exact) Valid (start slow 0) calls →
      AllSteps (step .exact) (Admits .exact) (start slow 0) calls := by
  intro h
  exact absurd (h [50, 100] (by decide +kernel)) (by decide +kernel)

/-- A slow bucket and two calls a while apart. -/
theorem allSteps_admits_iff_slow :
    AllSteps (step .exact) (Admits .exact) (start slow 0) [50, 50] ↔
      AllSteps (step .exact) (SpacedIfCompliant .exact) (start slow 0) [50, 50] :=
  allSteps_admits_iff .exact slow 0 [50, 50] (by decide +kernel)

/-! ## Buckets that admit nobody -/

/-- The call is rejected. -/
def Rejects (ops : FloatOps F) (h : History F) (now : Nat) (_ : History F) : Prop :=
  (h.bucket.tryAcquire ops now).1 = false

instance (ops : FloatOps F) (h : History F) (now : Nat) (h' : History F) :
    Decidable (Rejects ops h now h') :=
  inferInstanceAs (Decidable (_ = _))

/-- **A bucket that gains something in every millisecond admits nobody**, however many tokens
it has: either no time has passed since its last refill or the call refills it. -/
theorem allSteps_rejected (ops : FloatOps F) (config : RateLimitConfig F) (created : Nat)
    (calls : List Nat) (interval : 0 < config.minIntervalMs)
    (gains : ∀ elapsedMs, 0 < elapsedMs → tokensToAdd ops config elapsedMs ≠ 0)
    (valid : AllSteps (step ops) Valid (start config created) calls) :
    AllSteps (step ops) (Rejects ops) (start config created) calls := by
  suffices hkeep : ∀ h now h', Inv h ∧ h.bucket.config = config → step ops h now = some h' →
      Valid h now h' → (Inv h' ∧ h'.bucket.config = config) ∧ Rejects ops h now h' from
    AllSteps.of_invariant hkeep calls (start config created) ⟨inv_start config created, rfl⟩ valid
  rintro h now h' ⟨inv, hconfig⟩ hstep hvalid
  obtain ⟨inv', hconfig'⟩ := inv_step inv hstep hvalid
  refine ⟨⟨inv', hconfig'.trans hconfig⟩, ?_⟩
  have hrefilled := inv.lastRefill.trans hvalid.1
  refine Bool.eq_false_iff.mpr fun hadmitted => ?_
  rcases ((tryAcquire_eq_true_iff inv.enabled hrefilled hvalid.2).mp hadmitted).1 with
    hzero | ⟨hnot, hspaced⟩
  · exact absurd (hconfig ▸ hzero) interval.ne'
  · -- an interval since the last refill is long enough to gain something
    have hsince : h.bucket.lastRefill < now := by
      rw [hconfig] at hspaced
      omega
    exact hnot ⟨hsince, hconfig ▸ gains _ (Nat.sub_pos_of_lt hsince)⟩

/-- The standard limits: a full bucket of 1200 and not one request. -/
example :
    AllSteps (step .exact) (Rejects .exact) (start ⟨1200, 20, 50⟩ 0) [0, 50, 1000, 60000] := by
  decide +kernel

end History

end StopTrading.Network.RateLimiter
