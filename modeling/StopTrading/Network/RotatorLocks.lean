import StopTrading.Network.ApiKeyRotator
import Mathlib

/-!
# The order of the mutexes

A thread that records the tenth failure of a key holds the mutex of the health and takes that of the
keys, and then the former again.  With two keys it waits for itself; with one it waits for an
`add_key` that waits for it.

* `leads_of_operator` — what one step does to the mutexes and the keys, and where it leads.
* `Kept` — in every run a mutex is locked by the thread that is behind its acquisition, and a key
  has an entry unless it is just being added.
* `Ordered`, `ordered_step` — where neither of the two happens (`LockOrder`), no thread holds the
  health and waits for keys that are held by one that waits for the health.
* `neverStuck_of_lockOrder` — so every mutex that a thread waits for can be released, and
  `rotate_key` activates a key that is not blocked if there is one.

### What is load-bearing

With two mutexes and calls that take them in one order, no thread waits for ever: who holds the
second waits for nobody.  `record_failure` takes them in the other order, and then the second
once more. `LockOrder` leaves it one way out, a rotation that finds at most one key and so
returns before it looks at the health again, and asks that nobody waits for the health meanwhile
with the keys in hand.

"Can be unlocked" is a statement about continuations, and is proved by giving one.  A thread that
holds the health goes on by itself or waits for the keys, one that holds the keys goes on or
waits for the health, and `Ordered` excludes that both wait (`canUnlock_health`,
`canUnlock_keys`).

The second result, on the key that a rotation activates, needs no order.  It holds in every run,
since a thread that looks for a key has the mutexes of both lists.
-/

namespace StopTrading.Network

open Transition Threads Locks

variable {Tid : Type}

/-! ## What is promised -/

/-- What a thread has locked, in the order in which it unlocks it. -/
def RotatorPc.held : RotatorPc → List RotatorLock
  | .addHealth _ | .readRelease _ _ => [.keys]
  | .rotateKeys nested => outerLocks nested
  | .rotateHealth nested _ => .keys :: outerLocks nested
  | .release locks => locks
  | _ => []

/-- What a thread waits for. -/
def RotatorPc.waitsFor : RotatorPc → Option RotatorLock
  | .addKeys _ | .readKeys _ | .rotateKeys _ => some .keys
  | .addHealth _ | .succeed _ | .fail _ | .rotateHealth _ _ => some .health
  | _ => none

/-- Some continuation unlocks the mutex. -/
abbrev CanUnlock [DecidableEq Tid] (s : RotatorThreads Tid) (l : RotatorLock) : Prop :=
  CanFree (step operator) (fun s : RotatorThreads Tid => s.shared.owner) s l

/-- **No thread waits for a mutex that can never be unlocked.** -/
def NeverStuck [DecidableEq Tid] (s : RotatorThreads Tid) : Prop :=
  ∀ t l, (s.pc t).waitsFor = some l → CanUnlock s l

/-- **`rotate_key` activates a key that is not blocked**, if there is one when it begins to look. -/
def PicksUsable (s : RotatorThreads Tid) (a : Tid × RotatorChoice) (s' : RotatorThreads Tid) :
    Prop :=
  match s.pc a.1 with
  | .rotateHealth _ _ =>
      (∃ key ∈ s.shared.rotator.keys,
        ¬ s.shared.rotator.Blocked (s.shared.clock + a.2.elapsed 0) key) →
      ∃ key, s'.shared.rotator.keys[s'.shared.rotator.activeKeyIndex]? = some key ∧
        ¬ s'.shared.rotator.Blocked s'.shared.clock key
  | _ => True

/-- The thread calls `rotate_key` from `record_failure`. -/
def RotatorPc.nests : RotatorPc → Bool
  | .rotateKeys true => true
  | _ => false

/-- The thread has pushed a key and not yet its health. -/
def RotatorPc.adds : RotatorPc → Bool
  | .addHealth _ => true
  | _ => false

/-- Who adds a key does not rotate. -/
theorem RotatorPc.nests_of_adds {p : RotatorPc} (h : p.adds = true) : p.nests = false := by
  cases p with
  | addHealth id => rfl
  | idle | addKeys | readKeys | readRelease | succeed | fail | rotateKeys | rotateHealth
  | release => cases h

/-- **The order of the mutexes is kept**: a failure that rotates the keys is recorded only while
there is at most one key and none is being added, and no key is added until the rotation is over. -/
def LockOrder (s : RotatorThreads Tid) (a : Tid × RotatorChoice) (_ : RotatorThreads Tid) : Prop :=
  match s.pc a.1 with
  | .fail id =>
      s.shared.rotator.Exhausts id ∧ s.shared.rotator.rotationEnabled = true →
        s.shared.rotator.keys.length ≤ 1 ∧ ∀ u, (s.pc u).adds = false
  | .addKeys _ => ∀ u, (s.pc u).nests = false
  | _ => True

instance [Fintype Tid] (s : RotatorThreads Tid) (a : Tid × RotatorChoice)
    (s' : RotatorThreads Tid) : Decidable (LockOrder s a s') := by
  unfold LockOrder
  split <;> infer_instance

/-! ## What a step does -/

/-- What is locked after an acquisition. -/
theorem lock_eq_some [DecidableEq Tid] {sh sh' : RotatorShared Tid} {t : Tid} {l : RotatorLock} :
    sh.lock t l = some sh' ↔
      sh.owner l = none ∧ sh' = { sh with owner := Function.update sh.owner l (some t) } := by
  unfold RotatorShared.lock
  rw [Option.map_eq_some_iff]
  constructor
  · rintro ⟨owner, hacquire, rfl⟩
    obtain ⟨hfree, rfl⟩ := acquire_eq_some.mp hacquire
    exact ⟨hfree, rfl⟩
  · rintro ⟨hfree, rfl⟩
    exact ⟨_, acquire_eq_some.mpr ⟨hfree, rfl⟩, rfl⟩

/-- What follows an acquisition. -/
theorem lock_map_eq_some [DecidableEq Tid] {R : Type} {sh : RotatorShared Tid} {t : Tid}
    {l : RotatorLock} {f : RotatorShared Tid → R} {r : R} :
    (sh.lock t l).map f = some r ↔
      sh.owner l = none ∧ f { sh with owner := Function.update sh.owner l (some t) } = r := by
  rw [Option.map_eq_some_iff]
  constructor
  · rintro ⟨sh', hlock, rfl⟩
    obtain ⟨hfree, rfl⟩ := lock_eq_some.mp hlock
    exact ⟨hfree, rfl⟩
  · rintro ⟨hfree, rfl⟩
    exact ⟨_, lock_eq_some.mpr ⟨hfree, rfl⟩, rfl⟩

/-- An entry stays one. -/
theorem ApiKeyRotator.setHealth_ne_none {r : ApiKeyRotator} {id id' : String} {h : KeyHealth}
    (hkey : r.keyHealth id' ≠ none) : (r.setHealth id h).keyHealth id' ≠ none := by
  change Function.update r.keyHealth id (some h) id' ≠ none
  by_cases heq : id' = id
  · subst heq
    rw [Function.update_self]
    exact Option.some_ne_none h
  · rwa [Function.update_of_ne heq]

/-- The keys stay, and so do the entries. -/
structure ApiKeyRotator.SameKeys (r r' : ApiKeyRotator) : Prop where
  /-- the keys are the same -/
  keys_eq : r'.keys = r.keys
  /-- and have their entries -/
  entry : ∀ id, r.keyHealth id ≠ none → r'.keyHealth id ≠ none

/-- Nothing has happened to the keys, -/
theorem ApiKeyRotator.sameKeys_refl (r : ApiKeyRotator) : r.SameKeys r := ⟨rfl, fun _ => id⟩

/-- nor does a success change them, -/
theorem ApiKeyRotator.sameKeys_recordSuccess (r : ApiKeyRotator) (id : String) (now : Nat) :
    r.SameKeys (r.recordSuccess id now) := by
  unfold ApiKeyRotator.recordSuccess
  split
  · exact ⟨rfl, fun _ => ApiKeyRotator.setHealth_ne_none⟩
  · exact r.sameKeys_refl

/-- or a failure. -/
theorem ApiKeyRotator.sameKeys_recordFailure (r : ApiKeyRotator) (id : String) (now later : Nat) :
    r.SameKeys (r.recordFailure id now later) := by
  unfold ApiKeyRotator.recordFailure
  split
  · dsimp only
    split
    · exact ⟨rfl, fun _ => ApiKeyRotator.setHealth_ne_none⟩
    · exact ⟨rfl, fun _ => ApiKeyRotator.setHealth_ne_none⟩
  · exact r.sameKeys_refl

/-- **What one step does**: to the mutexes, to the keys and their entries, and where it leads. -/
structure Leads (t : Tid) (sh : RotatorShared Tid) (p : RotatorPc) (sh' : RotatorShared Tid)
    (p' : RotatorPc) : Prop where
  /-- mutexes are taken and given back -/
  moves : Moves t sh.owner p.held p'.held sh'.owner
  /-- a key is added by one call only -/
  keys : sh'.rotator.keys = sh.rotator.keys ∨
    ∃ key, p' = .addHealth key.id ∧ sh'.rotator.keys = sh.rotator.keys ++ [key]
  /-- entries stay -/
  entry : ∀ id, sh.rotator.keyHealth id ≠ none → sh'.rotator.keyHealth id ≠ none
  /-- and a key that was added gets one -/
  inserts : ∀ id, p = .addHealth id → sh'.rotator.keyHealth id ≠ none
  /-- only `add_key` adds -/
  adds : p'.adds = true → ∃ key, p = .addKeys key
  /-- only a failure of too many rotates -/
  nests : p'.nests = true → ∃ id, p = .fail id ∧ sh.rotator.Exhausts id ∧
    sh.rotator.rotationEnabled = true
  /-- and a rotation selects among several -/
  selects : ∀ nested start, p' = .rotateHealth nested start →
    p = .rotateKeys nested ∧ 1 < sh.rotator.keys.length ∧ start < sh.rotator.keys.length

/-- A step that neither adds a key nor rotates. -/
theorem Leads.quiet {t : Tid} {sh sh' : RotatorShared Tid} {p p' : RotatorPc}
    (hmoves : Moves t sh.owner p.held p'.held sh'.owner)
    (hsame : sh.rotator.SameKeys sh'.rotator) (hinserts : ∀ id, p ≠ .addHealth id)
    (hadds : p'.adds = false) (hnests : p'.nests = false)
    (hselects : ∀ nested start, p' ≠ .rotateHealth nested start) : Leads t sh p sh' p' where
  moves := hmoves
  keys := Or.inl hsame.keys_eq
  entry := hsame.entry
  inserts := fun id h => absurd h (hinserts id)
  adds := fun h => absurd (hadds.symm.trans h) Bool.false_ne_true
  nests := fun h => absurd (hnests.symm.trans h) Bool.false_ne_true
  selects := fun nested start h => absurd h (hselects nested start)

/-- **What one step of a thread leads to**, by cases on where it is. -/
theorem leads_of_operator [DecidableEq Tid] {t : Tid} {sh sh' : RotatorShared Tid}
    {p p' : RotatorPc} {c : RotatorChoice} (h : operator t sh p c = some (sh', p')) :
    Leads t sh p sh' p' := by
  cases p with
  | idle =>
      rw [operator] at h
      cases hcall : c.call with
      | addKey id apiKey secretKey =>
          rw [hcall] at h
          cases h
          exact .quiet .stays (ApiKeyRotator.sameKeys_refl _) nofun rfl rfl nofun
      | activeKey call =>
          rw [hcall] at h
          cases h
          exact .quiet .stays (ApiKeyRotator.sameKeys_refl _) nofun rfl rfl nofun
      | rotateKey =>
          rw [hcall] at h
          dsimp only at h
          split_ifs at h <;> cases h <;>
            exact .quiet .stays (ApiKeyRotator.sameKeys_refl _) nofun rfl rfl nofun
  | addKeys key =>
      rw [operator] at h
      obtain ⟨hfree, heq⟩ := lock_map_eq_some.mp h
      cases heq
      exact ⟨.acquires hfree, Or.inr ⟨key, rfl, rfl⟩, fun _ => id, nofun, fun _ => ⟨key, rfl⟩,
        nofun, nofun⟩
  | addHealth id =>
      rw [operator] at h
      obtain ⟨hfree, heq⟩ := lock_map_eq_some.mp h
      cases heq
      -- the key has been in the list since `addKeys`, and gets its entry only here
      refine ⟨.acquires hfree, Or.inl rfl, fun _ => ApiKeyRotator.setHealth_ne_none,
        fun id' h => ?_, nofun, nofun, nofun⟩
      obtain rfl := RotatorPc.addHealth.inj h
      change Function.update sh.rotator.keyHealth id (some .fresh) id ≠ none
      rw [Function.update_self]
      exact Option.some_ne_none _
  | readKeys call =>
      rw [operator] at h
      obtain ⟨hfree, heq⟩ := lock_map_eq_some.mp h
      cases heq
      exact .quiet (.acquires hfree) (ApiKeyRotator.sameKeys_refl _) nofun rfl rfl nofun
  | readRelease call found =>
      rw [operator] at h
      cases h
      cases call <;> cases found <;>
        exact .quiet .releases (ApiKeyRotator.sameKeys_refl _) nofun rfl rfl nofun
  | succeed id =>
      rw [operator] at h
      obtain ⟨hfree, heq⟩ := lock_map_eq_some.mp h
      cases heq
      exact .quiet (.acquires hfree) (ApiKeyRotator.sameKeys_recordSuccess _ _ _) nofun rfl rfl
        nofun
  | fail id =>
      rw [operator] at h
      obtain ⟨hfree, heq⟩ := lock_map_eq_some.mp h
      dsimp only at heq
      have hsame := ApiKeyRotator.sameKeys_recordFailure sh.rotator id (sh.clock + c.elapsed 0)
        (sh.clock + c.elapsed 0 + c.elapsed 1)
      -- one failure too many rotates, with the lock of the health still held
      split_ifs at heq with hrotates <;> cases heq
      · exact ⟨.acquires hfree, Or.inl hsame.keys_eq, hsame.entry, nofun, nofun,
          fun _ => ⟨id, rfl, hrotates⟩, nofun⟩
      · exact .quiet (.acquires hfree) hsame nofun rfl rfl nofun
  | rotateKeys nested =>
      rw [operator] at h
      obtain ⟨hfree, heq⟩ := lock_map_eq_some.mp h
      dsimp only at heq
      split_ifs at heq with hfew <;> cases heq
      · exact .quiet (.acquires hfree) (ApiKeyRotator.sameKeys_refl _) nofun rfl rfl nofun
      · have hmany := Nat.not_le.mp hfew
        refine ⟨.acquires hfree, Or.inl rfl, fun _ => id, nofun, nofun, nofun,
          fun nested' start h => ?_⟩
        obtain ⟨rfl, rfl⟩ := RotatorPc.rotateHealth.inj h
        exact ⟨rfl, hmany, Nat.mod_lt _ (Nat.zero_lt_of_lt hmany)⟩
  | rotateHealth nested start =>
      rw [operator] at h
      obtain ⟨_, hlock, hselect⟩ := Option.bind_eq_some_iff.mp h
      obtain ⟨hfree, rfl⟩ := lock_eq_some.mp hlock
      obtain ⟨⟨next, clock⟩, -, heq⟩ := Option.map_eq_some_iff.mp hselect
      cases heq
      exact .quiet (.acquires hfree) ⟨rfl, fun _ => id⟩ nofun rfl rfl nofun
  | release locks =>
      cases locks with
      | nil =>
          rw [operator] at h
          cases h
          exact .quiet .stays (ApiKeyRotator.sameKeys_refl _) nofun rfl rfl nofun
      | cons l locks =>
          rw [operator] at h
          cases h
          -- the last lock that is given up ends the call
          by_cases hlast : locks = []
          · subst hlast
            exact .quiet .releases (ApiKeyRotator.sameKeys_refl _) nofun rfl rfl nofun
          · rw [if_neg hlast]
            exact .quiet .releases (ApiKeyRotator.sameKeys_refl _) nofun rfl rfl nofun

/-! ## What every run keeps -/

/-- **What every run keeps.** -/
structure Kept (s : RotatorThreads Tid) : Prop where
  /-- a mutex is owned by who has taken it -/
  owned : Owned RotatorPc.held s.shared.owner s.pc
  /-- once -/
  nodup : ∀ t, (s.pc t).held.Nodup
  /-- a selection starts at one of several keys -/
  selects : ∀ t nested start, s.pc t = .rotateHealth nested start →
    1 < s.shared.rotator.keys.length ∧ start < s.shared.rotator.keys.length
  /-- and keys have entries -/
  healthy : ∀ key ∈ s.shared.rotator.keys,
    s.shared.rotator.keyHealth key.id ≠ none ∨ ∃ t, s.pc t = .addHealth key.id

/-- Nobody holds anything, and there are no keys. -/
theorem kept_init (Tid : Type) (rotationEnabled : Bool) (created : Nat) :
    Kept (RotatorThreads.init Tid rotationEnabled created) where
  owned := fun _ _ => iff_of_false (Option.some_ne_none _).symm List.not_mem_nil
  nodup := fun _ => List.nodup_nil
  selects := nofun
  healthy := fun _ hkey => absurd hkey List.not_mem_nil

section Kept

variable {s s' : RotatorThreads Tid} {t : Tid}

/-- While a thread that adds no key has the mutex of the keys, all of them have an entry. -/
theorem Kept.all_healthy (h : Kept s) (hkeys : RotatorLock.keys ∈ (s.pc t).held)
    (hadds : (s.pc t).adds = false) :
    ∀ key ∈ s.shared.rotator.keys, s.shared.rotator.keyHealth key.id ≠ none := by
  intro key hkey
  refine (h.healthy key hkey).resolve_right ?_
  rintro ⟨u, hu⟩
  have hut : u = t := by
    have howns : s.shared.owner .keys = some u :=
      (h.owned .keys u).mpr (by rw [hu]; simp [RotatorPc.held])
    exact Option.some.inj (howns.symm.trans ((h.owned .keys t).mpr hkeys))
  rw [hut] at hu
  rw [hu] at hadds
  cases hadds

variable [DecidableEq Tid]

/-- **One step keeps it.** -/
theorem kept_step {a : Tid × RotatorChoice} (h : Kept s) (hstep : step operator s a = some s') :
    Kept s' := by
  obtain ⟨t, c⟩ := a
  obtain ⟨sh', p', hprog, rfl⟩ := step_eq_some.mp hstep
  have hleads := leads_of_operator hprog
  obtain ⟨howned, hnodup⟩ := h.owned.moves (h.nodup t) hleads.moves
  have hmore : s.shared.rotator.keys.length ≤ sh'.rotator.keys.length := by
    rcases hleads.keys with hsame | ⟨key, -, hkeys⟩
    · rw [hsame]
    · rw [hkeys, List.length_append]
      exact Nat.le_add_right _ _
  have hnodups : ∀ u, (Function.update s.pc t p' u).held.Nodup :=
    forall_pc_update (Q := fun _ p => (RotatorPc.held p).Nodup) hnodup fun u _ => h.nodup u
  refine ⟨howned, hnodups, fun u nested start hu => ?_, fun key hkey => ?_⟩
  · have hbefore : 1 < s.shared.rotator.keys.length ∧ start < s.shared.rotator.keys.length := by
      rcases eq_or_pc_of_update hu with ⟨-, hnew⟩ | ⟨-, hold⟩
      · exact (hleads.selects nested start hnew).2
      · exact h.selects u nested start hold
    exact ⟨hbefore.1.trans_le hmore, hbefore.2.trans_le hmore⟩
  · have hold : key ∈ s.shared.rotator.keys → sh'.rotator.keyHealth key.id ≠ none ∨
        ∃ u, Function.update s.pc t p' u = .addHealth key.id := by
      intro hmem
      rcases h.healthy key hmem with hentry | ⟨u, hu⟩
      · exact Or.inl (hleads.entry _ hentry)
      · by_cases hut : u = t
        · -- this is the key whose entry is inserted
          subst hut
          exact Or.inl (hleads.inserts _ hu)
        · exact Or.inr ⟨u, (Function.update_of_ne hut _ s.pc).trans hu⟩
    rcases hleads.keys with hsame | ⟨new, hp', hkeys⟩
    · exact hold (hsame ▸ hkey)
    · change key ∈ sh'.rotator.keys at hkey
      rw [hkeys] at hkey
      rcases List.mem_append.mp hkey with hmem | hnew
      · exact hold hmem
      · obtain rfl := List.mem_singleton.mp hnew
        exact Or.inr ⟨t, (Function.update_self t p' s.pc).trans hp'⟩

/-- **The selection of a run** is one of a key that is not blocked. -/
theorem picksUsable_step {a : Tid × RotatorChoice} (h : Kept s)
    (hstep : step operator s a = some s') : PicksUsable s a s' := by
  obtain ⟨t, c⟩ := a
  obtain ⟨sh', p', hprog, rfl⟩ := step_eq_some.mp hstep
  unfold PicksUsable
  dsimp only at hprog ⊢
  split
  · rename_i nested start hpc
    have hstart := (h.selects t nested start hpc).2
    have hhealth := h.all_healthy (t := t) (by rw [hpc]; exact List.mem_cons_self)
      (by rw [hpc]; rfl)
    rw [hpc, operator] at hprog
    obtain ⟨_, hlock, hselect⟩ := Option.bind_eq_some_iff.mp hprog
    obtain ⟨-, rfl⟩ := lock_eq_some.mp hlock
    obtain ⟨next, clock, hrun, -, husable⟩ :=
      ApiKeyRotator.selectKey_usable hhealth hstart c.elapsed (s.shared.clock + c.elapsed 0)
    dsimp only at hselect
    rw [hrun, Option.map_some] at hselect
    cases hselect
    exact husable
  · trivial

end Kept

section Step

variable {s s' : RotatorThreads Tid} [DecidableEq Tid]

/-! ## The order of the mutexes -/

/-- **What the order keeps**: a rotation by `record_failure` finds at most one key and none being
added, and so never looks for another. -/
structure Ordered (s : RotatorThreads Tid) : Prop extends Kept s where
  nested : ∀ t, (s.pc t).nests = true →
    s.shared.rotator.keys.length ≤ 1 ∧ ∀ u, (s.pc u).adds = false
  outer : ∀ t start, s.pc t ≠ .rotateHealth true start

/-- **One step keeps the order.** -/
theorem ordered_step {a : Tid × RotatorChoice} (h : Ordered s)
    (hstep : step operator s a = some s') (hguard : LockOrder s a s') : Ordered s' := by
  have hkept := kept_step h.toKept hstep
  obtain ⟨t, c⟩ := a
  obtain ⟨sh', p', hprog, rfl⟩ := step_eq_some.mp hstep
  dsimp only at hprog hkept ⊢
  have hleads := leads_of_operator hprog
  have hnoNests : p'.adds = true → ∀ u, (s.pc u).nests = false := fun hp => by
    obtain ⟨key, hpc⟩ := hleads.adds hp
    unfold LockOrder at hguard
    dsimp only at hguard
    rwa [hpc] at hguard
  have hfew : p'.nests = true →
      s.shared.rotator.keys.length ≤ 1 ∧ ∀ u, (s.pc u).adds = false := fun hp => by
    obtain ⟨id, hpc, hrotates⟩ := hleads.nests hp
    unfold LockOrder at hguard
    dsimp only at hguard
    rw [hpc] at hguard
    exact hguard hrotates
  refine ⟨hkept, fun u hu => ?_, fun u start hu => ?_⟩
  · dsimp only at hu ⊢
    cases hp : p'.adds with
    | true =>
        -- nobody rotates while a key is added
        rcases eq_or_pc_of_update (q := Function.update s.pc t p' u) rfl with ⟨rfl, heq⟩ | ⟨-, heq⟩
        · rw [← heq, RotatorPc.nests_of_adds hp] at hu
          cases hu
        · rw [← heq, hnoNests hp u] at hu
          cases hu
    | false =>
        have hsame : sh'.rotator.keys = s.shared.rotator.keys := by
          refine hleads.keys.resolve_right fun ⟨key, hadding, _⟩ => ?_
          rw [hadding] at hp
          cases hp
        rw [hsame]
        have hall : s.shared.rotator.keys.length ≤ 1 ∧ ∀ v, (s.pc v).adds = false := by
          rcases eq_or_pc_of_update (q := Function.update s.pc t p' u) rfl with
            ⟨-, heq⟩ | ⟨-, heq⟩
          · exact hfew (heq ▸ hu)
          · exact h.nested u (heq ▸ hu)
        exact ⟨hall.1, forall_pc_update (Q := fun _ p => RotatorPc.adds p = false) hp
          fun v _ => hall.2 v⟩
  · rcases eq_or_pc_of_update hu with ⟨-, heq⟩ | ⟨-, heq⟩
    · obtain ⟨hpc, hmany, -⟩ := hleads.selects true start heq
      have hnests : (s.pc t).nests = true := by
        rw [hpc]
        rfl
      exact absurd (h.nested t hnests).1 (Nat.not_le.mpr hmany)
    · exact h.outer u start heq

/-! ## Unlocking -/

/-- No call and no time that passes. -/
def RotatorChoice.goOn : RotatorChoice := ⟨.rotateKey, fun _ => 0⟩

/-- A thread that is unlocking goes on. -/
theorem canUnlock_release {locks : List RotatorLock} {t : Tid} (hpc : s.pc t = .release locks)
    {l : RotatorLock} (hl : l ∈ locks) : CanUnlock s l := by
  induction locks generalizing s with
  | nil => cases hl
  | cons l' locks ih =>
      have hstep : step operator s (t, .goOn) = some ⟨s.shared.unlock l',
          Function.update s.pc t (if locks = [] then .idle else .release locks)⟩ :=
        step_eq_some.mpr ⟨_, _, by rw [hpc, operator], rfl⟩
      refine CanFree.after hstep ?_
      by_cases hsame : l = l'
      · subst hsame
        exact CanFree.here (Function.update_self _ _ _)
      · have hrest := (List.mem_cons.mp hl).resolve_left hsame
        rw [if_neg (List.ne_nil_of_mem hrest)]
        exact ih (Function.update_self _ _ _) hrest

/-- A rotation by `record_failure` with at most one key returns once it has the keys. -/
theorem canUnlock_nested {t : Tid} (hpc : s.pc t = .rotateKeys true)
    (hfew : s.shared.rotator.keys.length ≤ 1) (hfree : s.shared.owner .keys = none) :
    CanUnlock s .health := by
  have hstep : step operator s (t, .goOn) = some
      ⟨{ s.shared with owner := Function.update s.shared.owner .keys (some t) },
        Function.update s.pc t (.release [.keys, .health])⟩ :=
    step_eq_some.mpr ⟨_, _, by
      rw [hpc, operator]
      refine lock_map_eq_some.mpr ⟨hfree, ?_⟩
      rw [if_pos hfew]
      rfl, rfl⟩
  exact CanFree.after hstep (canUnlock_release (Function.update_self _ _ _) (by simp))

/-- A thread that holds the keys goes on once it has the health. -/
theorem canUnlock_second {t : Tid} (h : Kept s)
    (hpc : (∃ id, s.pc t = .addHealth id) ∨ ∃ start, s.pc t = .rotateHealth false start)
    (hfree : s.shared.owner .health = none) : CanUnlock s .keys := by
  have hnext : ∃ sh, operator t s.shared (s.pc t) .goOn = some (sh, .release [.health, .keys]) := by
    rcases hpc with ⟨id, hpc⟩ | ⟨start, hpc⟩
    · rw [hpc, operator]
      exact ⟨_, lock_map_eq_some.mpr ⟨hfree, rfl⟩⟩
    · have hhealth := h.all_healthy (t := t) (by rw [hpc]; exact List.mem_cons_self)
        (by rw [hpc]; rfl)
      obtain ⟨next, clock, hrun, -⟩ := ApiKeyRotator.selectKey_usable hhealth
        (h.selects t _ _ hpc).2 RotatorChoice.goOn.elapsed
        (s.shared.clock + RotatorChoice.goOn.elapsed 0)
      rw [hpc, operator, lock_eq_some.mpr ⟨hfree, rfl⟩, Option.bind_some]
      dsimp only
      rw [hrun]
      exact ⟨_, rfl⟩
  obtain ⟨sh, hnext⟩ := hnext
  have hstep : step operator s (t, .goOn) =
      some ⟨sh, Function.update s.pc t (.release [.health, .keys])⟩ :=
    step_eq_some.mpr ⟨sh, _, hnext, rfl⟩
  exact CanFree.after hstep (canUnlock_release (Function.update_self _ _ _) (by simp))

/-- A thread that is unlocking a mutex and does not hold the other one. -/
theorem locks_eq_singleton {locks : List RotatorLock} {l l' : RotatorLock} (hnodup : locks.Nodup)
    (hl : l ∈ locks) (hother : l' ∉ locks) (hne : l' ≠ l) : locks = [l] := by
  have hall : ∀ k ∈ locks, k = l := by
    intro k hk
    have hk' : k ≠ l' := fun heq => hother (heq ▸ hk)
    cases k <;> cases l <;> cases l' <;> first | rfl | exact absurd rfl hk' | exact absurd rfl hne
  cases locks with
  | nil => cases hl
  | cons k rest =>
      rw [List.forall_mem_cons] at hall
      obtain ⟨rfl, hrest⟩ := hall
      cases rest with
      | nil => rfl
      | cons k' rest =>
          rw [List.forall_mem_cons] at hrest
          exact absurd (hrest.1 ▸ List.mem_cons_self) (List.nodup_cons.mp hnodup).1

/-- A thread that holds only what it is unlocking ends so, and the others stand where they stood. -/
theorem unlock_last {t : Tid} {l : RotatorLock} (hpc : s.pc t = .release [l]) :
    step operator s (t, .goOn) = some ⟨s.shared.unlock l, Function.update s.pc t .idle⟩ :=
  step_eq_some.mpr ⟨_, _, by rw [hpc, operator, if_pos rfl], rfl⟩

omit [DecidableEq Tid] in
/-- The mutex is free behind its unlocking. -/
theorem RotatorShared.unlock_owner (sh : RotatorShared Tid) (l : RotatorLock) :
    (sh.unlock l).owner l = none :=
  Function.update_self _ _ _

omit [DecidableEq Tid] in
/-- **Where a thread holds the mutex of the keys**: it goes on by itself, or it waits for the health
of them. -/
theorem Ordered.holds_keys (h : Ordered s) {g : Tid} (howner : s.shared.owner .keys = some g) :
    (∃ call found, s.pc g = .readRelease call found) ∨
      (∃ locks, s.pc g = .release locks ∧ .keys ∈ locks) ∨
      (∃ id, s.pc g = .addHealth id) ∨ ∃ start, s.pc g = .rotateHealth false start := by
  have hheld := (h.owned .keys g).mp howner
  cases hpc : s.pc g with
  | readRelease call found => exact Or.inl ⟨call, found, rfl⟩
  | release locks =>
      rw [hpc] at hheld
      exact Or.inr (Or.inl ⟨locks, rfl, hheld⟩)
  | addHealth id => exact Or.inr (Or.inr (Or.inl ⟨id, rfl⟩))
  | rotateHealth nested start =>
      cases nested with
      | false => exact Or.inr (Or.inr (Or.inr ⟨start, rfl⟩))
      | true => exact absurd hpc (h.outer g start)
  | rotateKeys nested =>
      rw [hpc] at hheld
      cases nested <;> simp [RotatorPc.held, outerLocks] at hheld
  | idle | addKeys | readKeys | succeed | fail =>
      rw [hpc] at hheld
      cases hheld

omit [DecidableEq Tid] in
/-- **Where a thread holds the mutex of the health.** -/
theorem Ordered.holds_health (h : Ordered s) {g : Tid} (howner : s.shared.owner .health = some g) :
    (∃ locks, s.pc g = .release locks ∧ .health ∈ locks) ∨ s.pc g = .rotateKeys true := by
  have hheld := (h.owned .health g).mp howner
  cases hpc : s.pc g with
  | release locks =>
      rw [hpc] at hheld
      exact Or.inl ⟨locks, rfl, hheld⟩
  | rotateKeys nested =>
      cases nested with
      | true => exact Or.inr rfl
      | false =>
          rw [hpc] at hheld
          cases hheld
  | rotateHealth nested start =>
      cases nested with
      | true => exact absurd hpc (h.outer g start)
      | false =>
          rw [hpc] at hheld
          simp [RotatorPc.held, outerLocks] at hheld
  | addHealth | readRelease =>
      rw [hpc] at hheld
      simp [RotatorPc.held] at hheld
  | idle | addKeys | readKeys | succeed | fail =>
      rw [hpc] at hheld
      cases hheld

omit [DecidableEq Tid] in
/-- A thread that is unlocking one mutex while another thread has the other. -/
theorem Kept.release_eq (h : Kept s) {t g : Tid} {locks : List RotatorLock} {l l' : RotatorLock}
    (hpc : s.pc g = .release locks) (hl : l ∈ locks) (hne : l' ≠ l) (htg : t ≠ g)
    (hother : s.shared.owner l' = some t) : s.pc g = .release [l] := by
  have hnodup : locks.Nodup := by
    have hheld := h.nodup g
    rw [hpc] at hheld
    exact hheld
  have hnot : l' ∉ locks := fun hmem => by
    have hmine : s.shared.owner l' = some g := (h.owned l' g).mpr (by rw [hpc]; exact hmem)
    exact htg (Option.some.inj (hother.symm.trans hmine))
  rw [hpc, locks_eq_singleton hnodup hl hnot hne]

/-- **The mutex of the health can be unlocked.** -/
theorem Ordered.canUnlock_health (h : Ordered s) : CanUnlock s .health := by
  cases howner : s.shared.owner .health with
  | none => exact CanFree.here howner
  | some t =>
      rcases h.holds_health howner with ⟨locks, hpc, hmem⟩ | hpc
      · exact canUnlock_release hpc hmem
      · -- `rotate_key`, called by `record_failure`, waits for the keys
        have hnested := h.nested t (by rw [hpc]; rfl)
        cases hkeys : s.shared.owner .keys with
        | none => exact canUnlock_nested hpc hnested.1 hkeys
        | some g =>
            have hgt : t ≠ g := by
              rintro rfl
              have hheld := (h.owned .keys t).mp hkeys
              rw [hpc] at hheld
              simp [RotatorPc.held, outerLocks] at hheld
            have hafter : ∀ {p : RotatorPc}, step operator s (g, .goOn) =
                some ⟨s.shared.unlock .keys, Function.update s.pc g p⟩ → CanUnlock s .health :=
              fun hstep => CanFree.after hstep
                (canUnlock_nested ((Function.update_of_ne hgt _ _).trans hpc) hnested.1
                  (s.shared.unlock_owner .keys))
            rcases h.holds_keys hkeys with
              ⟨call, found, hg⟩ | ⟨locks, hg, hmem⟩ | ⟨id, hg⟩ | ⟨start, hg⟩
            · exact hafter (step_eq_some.mpr ⟨_, _, by rw [hg, operator], rfl⟩)
            · exact hafter (unlock_last (h.release_eq hg hmem (by decide) hgt howner))
            · -- no key is being added
              have hadds := hnested.2 g
              rw [hg] at hadds
              cases hadds
            · -- there are not enough keys for a selection
              exact absurd hnested.1 (Nat.not_le.mpr (h.selects g _ _ hg).1)

/-- **The mutex of the keys can be unlocked.** -/
theorem Ordered.canUnlock_keys (h : Ordered s) : CanUnlock s .keys := by
  cases howner : s.shared.owner .keys with
  | none => exact CanFree.here howner
  | some t =>
      -- a thread that waits for the health of the keys
      have hsecond : (∃ id, s.pc t = .addHealth id) ∨
          (∃ start, s.pc t = .rotateHealth false start) → CanUnlock s .keys := by
        intro hpc
        cases hhealth : s.shared.owner .health with
        | none => exact canUnlock_second h.toKept hpc hhealth
        | some g =>
            have hgt : t ≠ g := by
              rintro rfl
              have hheld := (h.owned .health t).mp hhealth
              rcases hpc with ⟨id, hpc⟩ | ⟨start, hpc⟩ <;> rw [hpc] at hheld <;>
                simp [RotatorPc.held, outerLocks] at hheld
            rcases h.holds_health hhealth with ⟨locks, hg, hmem⟩ | hg
            · have hstep := unlock_last (h.release_eq hg hmem (by decide) hgt howner)
              refine CanFree.after hstep (canUnlock_second (t := t) (kept_step h.toKept hstep) ?_
                (s.shared.unlock_owner .health))
              dsimp only
              rwa [Function.update_of_ne hgt]
            · have hnested := h.nested g (by rw [hg]; rfl)
              rcases hpc with ⟨id, hpc⟩ | ⟨start, hpc⟩
              · have hadds := hnested.2 t
                rw [hpc] at hadds
                cases hadds
              · exact absurd hnested.1 (Nat.not_le.mpr (h.selects t _ _ hpc).1)
      rcases h.holds_keys howner with ⟨call, found, hpc⟩ | ⟨locks, hpc, hmem⟩ | hpc | hpc
      · have hstep : step operator s (t, .goOn) = some _ :=
          step_eq_some.mpr ⟨_, _, by rw [hpc, operator], rfl⟩
        exact CanFree.after hstep (CanFree.here (s.shared.unlock_owner .keys))
      · exact canUnlock_release hpc hmem
      · exact hsecond (Or.inl hpc)
      · exact hsecond (Or.inr hpc)

/-- Where the order is kept, every mutex can be unlocked. -/
theorem Ordered.neverStuck (h : Ordered s) : NeverStuck s := by
  intro t l _
  cases l with
  | keys => exact h.canUnlock_keys
  | health => exact h.canUnlock_health

end Step

/-- Nobody rotates. -/
theorem ordered_init (Tid : Type) (rotationEnabled : Bool) (created : Nat) :
    Ordered (RotatorThreads.init Tid rotationEnabled created) where
  toKept := kept_init Tid rotationEnabled created
  nested := fun _ h => by cases h
  outer := fun _ _ h => by cases h

/-- **No thread waits for ever, and a rotation activates a key that is not blocked**: the latter in
every run, the former where the order of the mutexes is kept. -/
theorem neverStuck_of_lockOrder [DecidableEq Tid] (rotationEnabled : Bool) (created : Nat)
    (calls : List (Tid × RotatorChoice))
    (guard : AllSteps (step operator) LockOrder
      (RotatorThreads.init Tid rotationEnabled created) calls) :
    AllStates (step operator) NeverStuck (RotatorThreads.init Tid rotationEnabled created) calls ∧
      AllSteps (step operator) PicksUsable (RotatorThreads.init Tid rotationEnabled created)
        calls := by
  have hinit := ordered_init Tid rotationEnabled created
  refine ⟨AllStates.of_invariant (fun _ h => Ordered.neverStuck h)
    (fun _ _ _ => ordered_step) hinit guard, ?_⟩
  exact AllSteps.of_invariant
    (fun _ _ _ h hstep hguard => ⟨ordered_step h hstep hguard, picksUsable_step h.toKept hstep⟩)
    calls _ hinit guard

/-! ## A thread that waits for itself -/

/-- One thread makes a call and goes on for as many steps. -/
def callOf (t : Bool) (call : RotatorCall) (steps : Nat) : List (Bool × RotatorChoice) :=
  (t, ⟨call, fun _ => 1⟩) :: List.replicate steps (t, ⟨.rotateKey, fun _ => 1⟩)

/-- Two keys are added, one of them fails once, and the other one is activated. -/
def rotated : List (Bool × RotatorChoice) :=
  callOf false (.addKey "main" "k1" "s1") 4 ++ callOf false (.addKey "spare" "k2" "s2") 4 ++
    callOf true (.activeKey .recordFailure) 4 ++ callOf true .rotateKey 4

/-- One failure is not too many, so that nobody rotates while holding the health. -/
theorem neverStuck_rotated :
    AllSteps (step operator) LockOrder (RotatorThreads.init Bool true 0) rotated ∧
    AllStates (step operator) NeverStuck (RotatorThreads.init Bool true 0) rotated ∧
      AllSteps (step operator) PicksUsable (RotatorThreads.init Bool true 0) rotated := by
  have guard : AllSteps (step operator) LockOrder (RotatorThreads.init Bool true 0) rotated := by
    decide +kernel
  exact ⟨guard, neverStuck_of_lockOrder true 0 rotated guard⟩

/-- Two keys are added and the active one fails ten times. -/
def exhausted : List (Bool × RotatorChoice) :=
  callOf false (.addKey "main" "k1" "s1") 4 ++ callOf false (.addKey "spare" "k2" "s2") 4 ++
    (List.replicate 10 (callOf true (.activeKey .recordFailure) 4)).flatten

/-- The call of `rotate_key` by `record_failure` waits for the mutex that `record_failure` holds. -/
def SelfWaiting (t : Tid) (s : RotatorThreads Tid) : Prop :=
  Kept s ∧ ∃ start, s.pc t = .rotateHealth true start

/-- It holds what it waits for. -/
theorem SelfWaiting.owner_health {t : Tid} {s : RotatorThreads Tid} (h : SelfWaiting t s) :
    s.shared.owner .health = some t := by
  obtain ⟨hkept, start, hpc⟩ := h
  exact (hkept.owned .health t).mpr (by rw [hpc]; simp [RotatorPc.held, outerLocks])

/-- It does not get on. -/
theorem selfWaiting_step [DecidableEq Tid] {t : Tid} {s s' : RotatorThreads Tid}
    {a : Tid × RotatorChoice} (h : SelfWaiting t s) (hstep : step operator s a = some s') :
    SelfWaiting t s' := by
  have howner := h.owner_health
  obtain ⟨hkept, start, hpc⟩ := h
  refine ⟨kept_step hkept hstep, start, ?_⟩
  obtain ⟨sh', p', hprog, rfl⟩ := step_eq_some.mp hstep
  have hother : t ≠ a.1 := by
    rintro rfl
    rw [hpc, operator] at hprog
    obtain ⟨_, hlock, -⟩ := Option.bind_eq_some_iff.mp hprog
    rw [(lock_eq_some.mp hlock).1] at howner
    cases howner
  exact (Function.update_of_ne hother p' s.pc).trans hpc

/-- And so it waits for ever. -/
theorem not_canUnlock_of_selfWaiting [DecidableEq Tid] {t : Tid} {s : RotatorThreads Tid}
    (h : SelfWaiting t s) : ¬ CanUnlock s .health :=
  not_canFree_of_trap (fun _ _ _ => selfWaiting_step)
    (fun _ htrap => htrap.owner_health.trans_ne (Option.some_ne_none t)) h

/-- **Not every run is free of it.** -/
theorem not_forall_neverStuck :
    ¬ ∀ calls, AllStates (step operator) NeverStuck (RotatorThreads.init Bool true 0) calls := by
  intro hall
  have hends : ((run (step operator) (RotatorThreads.init Bool true 0) exhausted).map
      fun s => s.pc true) = some (.rotateHealth true 1) := by
    decide +kernel
  obtain ⟨s, hrun, hpc⟩ := Option.map_eq_some_iff.mp hends
  have hkept : AllStates (step operator) Kept (RotatorThreads.init Bool true 0) exhausted :=
    allStates_of_invariant (fun _ _ _ => kept_step) (kept_init Bool true 0) exhausted
  have hwaits : (s.pc true).waitsFor = some .health := by
    rw [hpc]
    rfl
  exact not_canUnlock_of_selfWaiting ⟨hkept.of_run hrun, 1, hpc⟩
    ((hall exhausted).of_run hrun true .health hwaits)

end StopTrading.Network
