import StopTrading.Library.Locks
import Mathlib

/-!
# API keys

`ApiKeyRotator` of `resilience_mod.rs`: a list of keys behind one mutex, and their health behind
another.  `operator` runs its calls with one acquisition of a mutex a step.  `add_key` and
`rotate_key` take the keys first and the health of the keys second; `record_failure` calls
`rotate_key` while it holds the health.

`selectKey_spec` says of the loop of `rotate_key` that it ends, and with a key that is not blocked
where there is one.

### Design decisions

Two mutexes, and calls that hold one while they take another.  A step of a thread goes from one
acquisition to the next, so that what happens under a lock is one step; a thread that waits has
no step, and a deadlock is a state in which the threads that could go on are the ones that are
waited for.

The clock is read several times within one call.  Each reading may be later than the one before,
by any amount, and the loop over the keys reads it for every blocked key; a key may become free
while the loop runs.  `selectKey` is given the stretches, and what is proved of it holds for all
of them.
-/

namespace StopTrading.Network

open Transition Threads Locks

variable {Tid : Type}

/-! ## The rotator -/

/-- `ApiKey`. -/
structure ApiKey where
  id : String
  apiKey : String
  secretKey : String
  createdAt : Nat
  lastRotated : Nat
  deriving Repr, DecidableEq

/-- `KeyHealth`. -/
structure KeyHealth where
  successCount : Nat
  failureCount : Nat
  lastUsed : Nat
  isBlocked : Bool
  blockUntil : Nat
  deriving Repr, DecidableEq

/-- `ApiKeyRotator`; the statistics that nothing counts are left out. -/
structure ApiKeyRotator where
  activeKeyIndex : Nat
  keys : List ApiKey
  keyHealth : String → Option KeyHealth
  rotationEnabled : Bool
  rotationsPerformed : Nat
  keysBlocked : Nat

/-- The health of a new key. -/
def KeyHealth.fresh : KeyHealth := ⟨0, 0, 0, false, 0⟩

/-- The key is blocked at a time. -/
def KeyHealth.BlockedAt (h : KeyHealth) (now : Nat) : Prop :=
  h.isBlocked = true ∧ now ≤ h.blockUntil

namespace ApiKeyRotator

/-- `ApiKeyRotator::new`; `set_rotation_enabled` may have disabled the rotation since. -/
def new (rotationEnabled : Bool) : ApiKeyRotator := ⟨0, [], fun _ => none, rotationEnabled, 0, 0⟩

/-- The entry of a key is replaced. -/
def setHealth (r : ApiKeyRotator) (id : String) (h : KeyHealth) : ApiKeyRotator :=
  { r with keyHealth := Function.update r.keyHealth id (some h) }

/-- What `get_active_key` returns. -/
def activeKey (r : ApiKeyRotator) : Option (String × String × String) :=
  r.keys[r.activeKeyIndex]?.map fun key => (key.id, key.apiKey, key.secretKey)

/-- `record_success`, behind the lock. -/
def recordSuccess (r : ApiKeyRotator) (id : String) (now : Nat) : ApiKeyRotator :=
  match r.keyHealth id with
  | some h =>
      r.setHealth id { h with successCount := (h.successCount + 1) % 2 ^ 32, lastUsed := now }
  | none => r

/-- The failure that is recorded of a key is one of too many. -/
def Exhausts (r : ApiKeyRotator) (id : String) : Prop :=
  ∃ h, r.keyHealth id = some h ∧ (h.failureCount + 1) % 2 ^ 32 ≥ 10

instance (r : ApiKeyRotator) (id : String) : Decidable (r.Exhausts id) :=
  match hid : r.keyHealth id with
  | some h =>
      decidable_of_iff ((h.failureCount + 1) % 2 ^ 32 ≥ 10)
        ⟨fun hmany => ⟨h, hid, hmany⟩, fun ⟨h', hid', hmany⟩ => by
          rw [hid] at hid'
          rwa [Option.some.inj hid']⟩
  | none => isFalse fun ⟨h', hid', _⟩ => by
      rw [hid] at hid'
      cases hid'

/-- `record_failure`, behind the lock and up to the call of `rotate_key`; `now` is read first and
`later` second. -/
def recordFailure (r : ApiKeyRotator) (id : String) (now later : Nat) : ApiKeyRotator :=
  match r.keyHealth id with
  | some h =>
      let h := { h with failureCount := (h.failureCount + 1) % 2 ^ 32, lastUsed := now }
      if h.failureCount ≥ 10 then
        { r.setHealth id
            { h with isBlocked := true, blockUntil := (later + 300 * 10 ^ 9) % 2 ^ 64 } with
          keysBlocked := r.keysBlocked + 1 }
      else r.setHealth id h
  | none => r

/-- Whether the loop of `rotate_key` stops at a key, and the clock; it is read for a blocked key
only. -/
def checkKey (r : ApiKeyRotator) (key : ApiKey) (clock elapsed : Nat) : Bool × Nat :=
  match r.keyHealth key.id with
  | some h =>
      if !h.isBlocked then (true, clock)
      else (decide (clock + elapsed > h.blockUntil), clock + elapsed)
  | none => (false, clock)

/-- The loop of `rotate_key`; it reads the clock `elapsed` after the reading before. -/
def selectKey (r : ApiKeyRotator) (start : Nat) (elapsed : Nat → Nat) :
    (fuel next clock : Nat) → Option (Nat × Nat)
  | 0, _, _ => none
  | fuel + 1, next, clock =>
      r.keys[next]?.bind fun key =>
        let (usable, clock) := r.checkKey key clock (elapsed (fuel + 1))
        if usable then some (next, clock)
        else
          let next := (next + 1) % r.keys.length
          if next = start then some (next, clock) else r.selectKey start elapsed fuel next clock

/-- The key is blocked at a time. -/
def Blocked (r : ApiKeyRotator) (now : Nat) (key : ApiKey) : Prop :=
  ∃ h, r.keyHealth key.id = some h ∧ h.BlockedAt now

end ApiKeyRotator

/-! ## The threads -/

/-- The two mutexes. -/
inductive RotatorLock where
  | keys | health
  deriving Repr, DecidableEq

/-- The rotator, who has locked its mutexes, and the latest reading of the clock. -/
structure RotatorShared (Tid : Type) where
  rotator : ApiKeyRotator
  owner : RotatorLock → Option Tid
  clock : Nat

/-- The call that reads the active key. -/
inductive ActiveKeyCall where
  | getActiveKey | recordSuccess | recordFailure
  deriving Repr, DecidableEq

/-- Where a thread is in its call.  All but `idle`, `readRelease` and `release` wait for a mutex:
`addKeys`, `readKeys` and `rotateKeys` for that of the keys. -/
inductive RotatorPc where
  | idle
  | addKeys (key : ApiKey)
  | addHealth (id : String)
  | readKeys (call : ActiveKeyCall)
  | readRelease (call : ActiveKeyCall) (found : Option (String × String × String))
  | succeed (id : String)
  | fail (id : String)
  | rotateKeys (nested : Bool)
  | rotateHealth (nested : Bool) (start : Nat)
  | release (locks : List RotatorLock)
  deriving Repr, DecidableEq

/-- Where the call goes on with the active key, if there is one. -/
def ActiveKeyCall.goOn : ActiveKeyCall → Option (String × String × String) → RotatorPc
  | .recordSuccess, some (id, _, _) => .succeed id
  | .recordFailure, some (id, _, _) => .fail id
  | _, _ => .idle

/-- The calls of an idle thread. -/
inductive RotatorCall where
  | addKey (id apiKey secretKey : String)
  | activeKey (call : ActiveKeyCall)
  | rotateKey
  deriving Repr, DecidableEq

/-- The call that an idle thread makes, and how far the clock goes on between its readings. -/
structure RotatorChoice where
  call : RotatorCall
  elapsed : Nat → Nat

namespace RotatorShared

/-- A mutex is locked. -/
def lock [DecidableEq Tid] (sh : RotatorShared Tid) (t : Tid) (l : RotatorLock) :
    Option (RotatorShared Tid) :=
  (acquire sh.owner t l).map fun owner => { sh with owner := owner }

/-- A mutex is unlocked. -/
def unlock (sh : RotatorShared Tid) (l : RotatorLock) : RotatorShared Tid :=
  { sh with owner := release sh.owner l }

end RotatorShared

/-- What `record_failure` has still locked when the `rotate_key` that it calls returns. -/
def outerLocks (nested : Bool) : List RotatorLock := if nested then [.health] else []

/-- **One step of a thread**: up to the next acquisition, or a release. -/
def operator [DecidableEq Tid] (t : Tid) (sh : RotatorShared Tid) :
    RotatorPc → RotatorChoice → Option (RotatorShared Tid × RotatorPc)
  | .idle, c =>
      match c.call with
      | .addKey id apiKey secretKey =>
          let createdAt := sh.clock + c.elapsed 0
          let lastRotated := createdAt + c.elapsed 1
          some ({ sh with clock := lastRotated },
            .addKeys ⟨id, apiKey, secretKey, createdAt, lastRotated⟩)
      | .activeKey call => some (sh, .readKeys call)
      | .rotateKey => some (sh, if sh.rotator.rotationEnabled then .rotateKeys false else .idle)
  | .addKeys key, _ =>
      (sh.lock t .keys).map fun sh =>
        ({ sh with rotator := { sh.rotator with keys := sh.rotator.keys ++ [key] } },
          .addHealth key.id)
  | .addHealth id, _ =>
      (sh.lock t .health).map fun sh =>
        ({ sh with rotator := sh.rotator.setHealth id .fresh }, .release [.health, .keys])
  | .readKeys call, _ =>
      (sh.lock t .keys).map fun sh => (sh, .readRelease call sh.rotator.activeKey)
  | .readRelease call found, _ => some (sh.unlock .keys, call.goOn found)
  | .succeed id, c =>
      (sh.lock t .health).map fun sh =>
        let now := sh.clock + c.elapsed 0
        ({ sh with rotator := sh.rotator.recordSuccess id now, clock := now }, .release [.health])
  | .fail id, c =>
      (sh.lock t .health).map fun sh =>
        let now := sh.clock + c.elapsed 0
        let later := now + c.elapsed 1
        ({ sh with rotator := sh.rotator.recordFailure id now later, clock := later },
          if sh.rotator.Exhausts id ∧ sh.rotator.rotationEnabled = true then .rotateKeys true
          else .release [.health])
  | .rotateKeys nested, _ =>
      (sh.lock t .keys).map fun sh =>
        (sh, if sh.rotator.keys.length ≤ 1 then .release (.keys :: outerLocks nested)
          else .rotateHealth nested ((sh.rotator.activeKeyIndex + 1) % sh.rotator.keys.length))
  | .rotateHealth nested start, c =>
      (sh.lock t .health).bind fun sh =>
        let clock := sh.clock + c.elapsed 0
        (sh.rotator.selectKey start c.elapsed sh.rotator.keys.length start clock).map
          fun (next, clock) =>
            ({ sh with
                rotator := { sh.rotator with
                  activeKeyIndex := next
                  rotationsPerformed := sh.rotator.rotationsPerformed + 1 }
                clock := clock },
              .release (.health :: .keys :: outerLocks nested))
  | .release [], _ => some (sh, .idle)
  | .release (l :: locks), _ =>
      some (sh.unlock l, if locks = [] then .idle else .release locks)

/-- Threads and the rotator they share. -/
abbrev RotatorThreads (Tid : Type) := State Tid RotatorPc (RotatorShared Tid)

/-- A new rotator, every thread before its first call. -/
def RotatorThreads.init (Tid : Type) (rotationEnabled : Bool) (created : Nat) :
    RotatorThreads Tid :=
  ⟨⟨.new rotationEnabled, fun _ => none, created⟩, fun _ => .idle⟩

/-! ## The selection -/

namespace ApiKeyRotator

variable {r : ApiKeyRotator} {key : ApiKey}

/-- A block runs out and does not come back. -/
theorem Blocked.mono {now later : Nat} (hle : now ≤ later) (h : r.Blocked later key) :
    r.Blocked now key := by
  obtain ⟨h, hkey, hblocked, huntil⟩ := h
  exact ⟨h, hkey, hblocked, hle.trans huntil⟩

/-- What the check of a key says. -/
theorem checkKey_spec (hkey : r.keyHealth key.id ≠ none) (clock elapsed : Nat) :
    ∃ usable clock', r.checkKey key clock elapsed = (usable, clock') ∧ clock ≤ clock' ∧
      (usable = true ↔ ¬ r.Blocked clock' key) := by
  obtain ⟨h, hh⟩ := Option.ne_none_iff_exists'.mp hkey
  have hiff : ∀ now, r.Blocked now key ↔ h.BlockedAt now := fun now => by
    constructor
    · rintro ⟨h', hh', hblocked⟩
      rwa [Option.some.inj (hh.symm.trans hh')]
    · exact fun hblocked => ⟨h, hh, hblocked⟩
  unfold checkKey
  rw [hh]
  dsimp only
  split
  · rename_i hopen
    refine ⟨true, clock, rfl, le_rfl, iff_of_true rfl ?_⟩
    rw [hiff]
    rintro ⟨hblocked, -⟩
    rw [hblocked] at hopen
    cases hopen
  · rename_i hblocked
    refine ⟨_, clock + elapsed, rfl, Nat.le_add_right _ _, ?_⟩
    rw [hiff, KeyHealth.BlockedAt, decide_eq_true_eq, not_and, Nat.not_le]
    refine ⟨fun hlate _ => hlate, fun hlate => hlate ?_⟩
    cases hb : h.isBlocked
    · rw [hb] at hblocked
      exact absurd rfl hblocked
    · rfl

/-- **The loop ends**, at a key that is not blocked or after it has seen every key blocked; `k` of
the keys are left to check. -/
theorem selectKey_spec (hhealth : ∀ key ∈ r.keys, r.keyHealth key.id ≠ none) {start : Nat}
    (hstart : start < r.keys.length) (elapsed : Nat → Nat) {k : Nat} (hpos : 0 < k)
    (hk : k ≤ r.keys.length) (clock : Nat) :
    ∃ next clock', r.selectKey start elapsed k ((start + (r.keys.length - k)) % r.keys.length)
        clock = some (next, clock') ∧ clock ≤ clock' ∧
      ((∃ key, r.keys[next]? = some key ∧ ¬ r.Blocked clock' key) ∨
        ∀ i, r.keys.length - k ≤ i → i < r.keys.length →
          ∃ key, r.keys[(start + i) % r.keys.length]? = some key ∧ r.Blocked clock key) := by
  induction k generalizing clock with
  | zero => exact absurd hpos (Nat.lt_irrefl 0)
  | succ k ih =>
      have hlen : 0 < r.keys.length := Nat.zero_lt_of_lt hstart
      have hnext := Nat.mod_lt (start + (r.keys.length - (k + 1))) hlen
      generalize hplace : (start + (r.keys.length - (k + 1))) % r.keys.length = next at hnext ⊢
      have hkey : r.keys[next]? = some r.keys[next] := List.getElem?_eq_getElem hnext
      obtain ⟨usable, clock', hcheck, hle, husable⟩ := checkKey_spec
        (hhealth _ (List.getElem_mem hnext)) clock (elapsed (k + 1))
      unfold selectKey
      rw [hkey, Option.bind_some, hcheck]
      dsimp only
      split
      · rename_i hyes
        exact ⟨next, clock', rfl, hle, Or.inl ⟨_, hkey, husable.mp hyes⟩⟩
      · rename_i hno
        have hblocked : r.Blocked clock r.keys[next] :=
          (not_not.mp (husable.not.mp hno)).mono hle
        have hadvance : (next + 1) % r.keys.length =
            (start + (r.keys.length - k)) % r.keys.length := by
          rw [← hplace, Nat.mod_add_mod]
          congr 1
          omega
        split
        · rename_i hround
          -- the round is over only behind the last key
          have hlast : k = 0 := by
            rw [hadvance] at hround
            by_contra hmore
            have hlt : r.keys.length - k < r.keys.length :=
              Nat.sub_lt hlen (Nat.pos_of_ne_zero hmore)
            have hzero : (start + (r.keys.length - k)) % r.keys.length =
                (start + 0) % r.keys.length := by
              rw [hround, Nat.add_zero, Nat.mod_eq_of_lt hstart]
            have hmod := Nat.ModEq.add_left_cancel' start hzero
            rw [Nat.ModEq, Nat.mod_eq_of_lt hlt, Nat.zero_mod] at hmod
            omega
          subst hlast
          refine ⟨_, clock', rfl, hle, Or.inr fun i hi hilt => ⟨_, ?_, hblocked⟩⟩
          have hi' : i = r.keys.length - (0 + 1) := by omega
          rw [hi', hplace]
          exact hkey
        · rename_i hgo
          have hmore : 0 < k := by
            by_contra hzero
            obtain rfl : k = 0 := by omega
            rw [Nat.sub_zero, Nat.add_mod_right, Nat.mod_eq_of_lt hstart] at hadvance
            exact hgo hadvance
          rw [hadvance]
          obtain ⟨last, clock'', hrest, hle', hends⟩ := ih hmore (Nat.le_of_succ_le hk) clock'
          refine ⟨last, clock'', hrest, hle.trans hle', hends.imp_right fun hall i hi hilt => ?_⟩
          by_cases hhere : i = r.keys.length - (k + 1)
          · exact ⟨_, by rw [hhere, hplace]; exact hkey, hblocked⟩
          · obtain ⟨key, hat, hlater⟩ := hall i (by omega) hilt
            exact ⟨key, hat, hlater.mono hle⟩

/-- **A key that is not blocked is selected**, if there is one. -/
theorem selectKey_usable (hhealth : ∀ key ∈ r.keys, r.keyHealth key.id ≠ none) {start : Nat}
    (hstart : start < r.keys.length) (elapsed : Nat → Nat) (clock : Nat) :
    ∃ next clock', r.selectKey start elapsed r.keys.length start clock = some (next, clock') ∧
      clock ≤ clock' ∧
      ((∃ key ∈ r.keys, ¬ r.Blocked clock key) →
        ∃ key, r.keys[next]? = some key ∧ ¬ r.Blocked clock' key) := by
  have hlen : 0 < r.keys.length := Nat.zero_lt_of_lt hstart
  obtain ⟨next, clock', hrun, hle, hends⟩ :=
    selectKey_spec hhealth hstart elapsed hlen le_rfl clock
  rw [Nat.sub_self, Nat.add_zero, Nat.mod_eq_of_lt hstart] at hrun
  refine ⟨next, clock', hrun, hle, ?_⟩
  rintro ⟨key, hmem, hopen⟩
  refine hends.resolve_right fun hall => ?_
  obtain ⟨j, hj, rfl⟩ := List.mem_iff_getElem.mp hmem
  -- the position is met in the round
  have hmet : (start + (j + (r.keys.length - start)) % r.keys.length) % r.keys.length = j := by
    rw [Nat.add_mod_mod]
    have hsum : start + (j + (r.keys.length - start)) = j + r.keys.length := by omega
    rw [hsum, Nat.add_mod_right, Nat.mod_eq_of_lt hj]
  obtain ⟨key, hat, hblocked⟩ := hall _ (by omega)
    (Nat.mod_lt (j + (r.keys.length - start)) hlen)
  rw [hmet, List.getElem?_eq_getElem hj] at hat
  exact hopen (Option.some.inj hat ▸ hblocked)

end ApiKeyRotator

end StopTrading.Network
