import StopTrading.DataStructures.HashThreads

/-!
# What readers see during an insertion

While the insertion runs, the map differs from the one before in the bucket that it writes
(`View`).  A safe insertion keeps the invariant `Inv`, whoever moves, and so no reader sees
anything foreign.

If the insertion is not safe, the inserter goes on until it has taken the bucket or stored its
key, and then a reader runs alone (`key_of_noForeign`, `wrote_of_noForeign`).  So the
condition is exact (`noForeign_iff`).

### What is load-bearing

The invariant compares the map with the one *before* the insertion, and not with that of the step
before.  Only one bucket can differ from it, the one that the insertion takes or that has the key
already, and there `View` says of each of the three atomic fields whether it may have changed.
The value is the only one for which the order of the stores matters: it changes last, so that a
bucket may be marked, and have its key, while the old value is still in it.

A reader is at a bucket that its search in the old map comes to, or at the one that was taken
(`GetInv`).  What it returns then splits into three cases, in `got_of_getValue`: an entry of the
old map, the new entry when it is complete, or the bucket that was taken, of which a safe
insertion says that the old value does no harm.

That the condition is necessary takes runs that are made for it.  They are put together from runs
of one thread alone: the inserter up to a store, then a reader from its first load to its last
(`exists_run`).
-/

namespace StopTrading.DataStructures

open Transition Threads LinearProbing ConcurrentHashMap

namespace HashThreads

/-! ## The invariant -/

/-- The bucket that the insertion writes. -/
def Target (m : ConcurrentHashMap) (key : Int64) (idx : Fin maxBuckets) : Prop :=
  Claims m key idx ∨ ((m.buckets idx).state = .occupied ∧ (m.buckets idx).key = key)

/-- **What the insertion may have changed** in the map before. -/
structure View (m : ConcurrentHashMap) (key value : Int64) (stored : Bool)
    (m' : ConcurrentHashMap) : Prop where
  /-- a bucket is occupied that was empty -/
  state_eq : ∀ idx, (m'.buckets idx).state = (m.buckets idx).state ∨
    (Claims m key idx ∧ (m'.buckets idx).state = .occupied)
  /-- it gets the key -/
  key_eq : ∀ idx, (m'.buckets idx).key = (m.buckets idx).key ∨
    (Claims m key idx ∧ (m'.buckets idx).key = key)
  /-- and the value, at last -/
  value_eq : ∀ idx, (m'.buckets idx).value = (m.buckets idx).value ∨
    (Target m key idx ∧ (m'.buckets idx).value = value ∧ stored = true)

/-- Where the inserter is. -/
def InsertInv (m : ConcurrentHashMap) (key : Int64) (m' : ConcurrentHashMap) : HashPc → Prop
  | .insertState idx firstDeleted => m' = m ∧ Walk m key idx firstDeleted
  | .insertKey idx firstDeleted =>
      m' = m ∧ Walk m key idx firstDeleted ∧ (m.buckets idx).state = .occupied
  | .insertClaim idx firstDeleted =>
      m' = m ∧ ∃ idx', idx = firstDeleted.getD idx' ∧ Walk m key idx' firstDeleted ∧
        (m.buckets idx').state = .empty
  | .insertOld idx | .insertUpdate idx _ =>
      (m.buckets idx).state = .occupied ∧ (m.buckets idx).key = key
  | .insertStoreKey idx | .insertStoreValue idx => Claims m key idx
  | .insertCount | .inserted | .updated _ | .full => True
  | _ => False

/-- Where a reader is. -/
def GetInv (calls : List MapCall) (key value : Int64) (stored : Bool) : HashPc → Prop
  | .idle => True
  | .getState k idx => Comes (reached calls) key k idx
  | .getKey k idx =>
      Comes (reached calls) key k idx ∧
        (((reached calls).buckets idx).state = .occupied ∨ Claims (reached calls) key idx)
  | .getValue k idx =>
      (((reached calls).buckets idx).state = .occupied ∧ ((reached calls).buckets idx).key = k) ∨
        (Claims (reached calls) key idx ∧ k = key)
  | .got k result =>
      ∀ x, result = some x → Wrote calls k x ∨ (k = key ∧ x = value ∧ stored = true)
  | _ => False

/-- **The invariant.** -/
structure Inv (calls : List MapCall) (key value : Int64) (s : HashThreads) : Prop where
  /-- the map is the old one up to the bucket that is written -/
  view : View (reached calls) key value (s.pc none).hasStored s.shared
  /-- the inserter has searched in the old map -/
  insert : InsertInv (reached calls) key s.shared (s.pc none)
  /-- and so have the readers -/
  get : ∀ r, GetInv calls key value (s.pc none).hasStored (s.pc (some r))

section View

variable {m m' : ConcurrentHashMap} {key value : Int64} {stored stored' : Bool}

/-- Before the first store nothing has changed. -/
theorem View.refl (m : ConcurrentHashMap) (key value : Int64) (stored : Bool) :
    View m key value stored m :=
  ⟨fun _ => .inl rfl, fun _ => .inl rfl, fun _ => .inl rfl⟩

/-- A write that changes what the insertion may change. -/
theorem View.write (h : View m key value stored m') (hstored : stored = true → stored' = true)
    {idx : Fin maxBuckets} {b : HashBucket}
    (hstate : b.state = (m'.buckets idx).state ∨ (Claims m key idx ∧ b.state = .occupied))
    (hkey : b.key = (m'.buckets idx).key ∨ (Claims m key idx ∧ b.key = key))
    (hvalue : b.value = (m'.buckets idx).value ∨
      (Target m key idx ∧ b.value = value ∧ stored' = true)) :
    View m key value stored' (m'.setBucket idx b) := by
  have hbuckets : ∀ idx', (m'.setBucket idx b).buckets idx' =
      if idx' = idx then b else m'.buckets idx' := fun idx' => Function.update_apply ..
  refine ⟨fun idx' => ?_, fun idx' => ?_, fun idx' => ?_⟩ <;> rw [hbuckets] <;> split
  · next heq =>
    subst heq
    rcases hstate with hsame | hnew
    · rw [hsame]
      exact h.state_eq idx'
    · exact .inr hnew
  · exact h.state_eq idx'
  · next heq =>
    subst heq
    rcases hkey with hsame | hnew
    · rw [hsame]
      exact h.key_eq idx'
    · exact .inr hnew
  · exact h.key_eq idx'
  · next heq =>
    subst heq
    rcases hvalue with hsame | hnew
    · rw [hsame]
      exact (h.value_eq idx').imp_right fun hold => ⟨hold.1, hold.2.1, hstored hold.2.2⟩
    · exact .inr hnew
  · exact (h.value_eq idx').imp_right fun hold => ⟨hold.1, hold.2.1, hstored hold.2.2⟩

end View

/-! ## The inserter's operations -/

section Insert

variable {m m' m'' : ConcurrentHashMap} {key value : Int64} {p p' : HashPc} {c : Int64}

/-- The next round of the inserter. -/
theorem insertInv_next {idx : Fin maxBuckets} {firstDeleted : Option (Fin maxBuckets)}
    (h : idx + 1 ≠ getIndex key → Walk m key (idx + 1) firstDeleted) :
    InsertInv m key m (.insertNext key idx firstDeleted) := by
  rw [HashPc.insertNext]
  split
  · exact trivial
  · next hnext => exact ⟨rfl, h hnext⟩

/-- **Before the compare-exchange**: the bucket is the one that is taken, or it is a tombstone
behind which the search goes on. -/
theorem Walk.claim_cases {idx : Fin maxBuckets} {firstDeleted : Option (Fin maxBuckets)}
    (h : Walk m key idx firstDeleted) (hempty : (m.buckets idx).state = .empty) :
    ((m.buckets (firstDeleted.getD idx)).state = .empty ∧
        Claims m key (firstDeleted.getD idx)) ∨
      ((m.buckets (firstDeleted.getD idx)).state ≠ .empty ∧
        (firstDeleted.getD idx + 1 ≠ getIndex key →
          Walk m key (firstDeleted.getD idx + 1) firstDeleted)) := by
  cases firstDeleted with
  | none => exact .inl ⟨hempty, h.claims hempty⟩
  | some d =>
      obtain ⟨hdeleted, hwalk⟩ := h.back
      refine .inr ⟨?_, hwalk⟩
      rw [Option.getD_some, hdeleted]
      nofun

/-- **One operation of the inserter.** -/
theorem insert_step (hview : View m key value p.hasStored m') (inv : InsertInv m key m' p)
    (hprog : hashThread key value none m' p c = some (m'', p')) :
    View m key value p'.hasStored m'' ∧ InsertInv m key m'' p' ∧
      (p.hasStored = true → p'.hasStored = true) := by
  cases p with
  | insertState idx firstDeleted =>
      obtain ⟨rfl, hwalk⟩ := inv
      cases hprog
      refine ⟨.refl .., ?_, nofun⟩
      cases hstate : (m'.buckets idx).state with
      | empty => exact ⟨rfl, idx, rfl, hwalk, hstate⟩
      | occupied => exact ⟨rfl, hwalk, hstate⟩
      -- the first slot that can be used again is kept, and the walk goes on
      | deleted =>
          refine insertInv_next fun hnext => ?_
          have hwalk' := hwalk.next (not_stops_of_deleted hstate) hnext
          rwa [if_pos hstate] at hwalk'
  | insertKey idx firstDeleted =>
      obtain ⟨rfl, hwalk, hstate⟩ := inv
      cases hprog
      refine ⟨.refl .., ?_, nofun⟩
      split
      · next hkey => exact ⟨hstate, hkey⟩
      · next hkey =>
        refine insertInv_next fun hnext => ?_
        have hwalk' := hwalk.next (not_stops_of_key hstate hkey) hnext
        rwa [if_neg (by rw [hstate]; nofun)] at hwalk'
  | insertOld idx =>
      cases hprog
      exact ⟨hview, inv, nofun⟩
  | insertUpdate idx old =>
      cases hprog
      exact ⟨hview.write nofun (.inl rfl) (.inl rfl) (.inr ⟨.inr inv, rfl, rfl⟩), trivial,
        fun _ => rfl⟩
  | insertClaim idx firstDeleted =>
      obtain ⟨rfl, idx', rfl, hwalk, hempty⟩ := inv
      rw [hashThread] at hprog
      -- the slot of a deleted entry may come before the empty one that ended the walk
      rcases hwalk.claim_cases hempty with ⟨hfree, hclaims⟩ | ⟨htaken, hback⟩
      · rw [if_pos hfree] at hprog
        cases hprog
        exact ⟨hview.write nofun (.inr ⟨hclaims, rfl⟩) (.inl rfl) (.inl rfl), hclaims, nofun⟩
      · rw [if_neg htaken] at hprog
        cases hprog
        exact ⟨.refl .., insertInv_next hback, nofun⟩
  | insertStoreKey idx =>
      cases hprog
      exact ⟨hview.write nofun (.inl rfl) (.inr ⟨inv, rfl⟩) (.inl rfl), inv, nofun⟩
  | insertStoreValue idx =>
      cases hprog
      exact ⟨hview.write nofun (.inl rfl) (.inl rfl) (.inr ⟨.inl inv, rfl, rfl⟩), trivial,
        fun _ => rfl⟩
  | insertCount =>
      cases hprog
      exact ⟨⟨hview.state_eq, hview.key_eq, hview.value_eq⟩, trivial, fun _ => rfl⟩
  | inserted => cases hprog
  | updated old => cases hprog
  | full => cases hprog
  | _ => cases inv

end Insert

/-! ## The readers' operations -/

section Get

variable {calls : List MapCall} {m m' : ConcurrentHashMap} {key value : Int64} {stored : Bool}
  {p p' : HashPc} {c : Int64} {r : Nat}

/-- The next round of a reader. -/
theorem getInv_next {k : Int64} {idx : Fin maxBuckets}
    (h : idx + 1 ≠ getIndex k → Comes (reached calls) key k (idx + 1)) :
    GetInv calls key value stored (.getNext k idx) := by
  rw [HashPc.getNext]
  split
  · exact nofun
  · next hnext => exact h hnext

/-- What the insertion has stored stays stored. -/
theorem GetInv.mono {stored' : Bool} (h : GetInv calls key value stored p)
    (hstored : stored = true → stored' = true) : GetInv calls key value stored' p := by
  cases p with
  | got k result =>
      exact fun x hx => (h x hx).imp_right fun hnew => ⟨hnew.1, hnew.2.1, hstored hnew.2.2⟩
  | _ => exact h

/-- A reader that finds its key is at an entry, or at the bucket that is taken for that
key. -/
theorem getValue_of_key (hsafe : Safe calls key)
    (hview : View (reached calls) key value stored m) {k : Int64} {idx : Fin maxBuckets}
    (inv : GetInv calls key value stored (.getKey k idx)) (hkey : (m.buckets idx).key = k) :
    GetInv calls key value stored (.getValue k idx) := by
  obtain ⟨hcomes, hwhere⟩ := inv
  rcases hview.key_eq idx with hsame | ⟨hclaims, hnew⟩
  · rw [hkey] at hsame
    rcases hwhere with hoccupied | hclaims
    · exact .inl ⟨hoccupied, hsame.symm⟩
    · -- The old key is the new one, or its search does not come here.
      refine .inr ⟨hclaims, ?_⟩
      rw [hsame]
      refine (hsafe idx hclaims).2.resolve_right fun hnot => hnot ?_
      rw [← hsame]
      exact hcomes.arrives hclaims
  · exact .inr ⟨hclaims, hkey.symm.trans hnew⟩

/-- A reader that finds another key goes on. -/
theorem getNext_of_key_ne (hview : View (reached calls) key value stored m) {k : Int64}
    {idx : Fin maxBuckets} (inv : GetInv calls key value stored (.getKey k idx))
    (hkey : (m.buckets idx).key ≠ k) : GetInv calls key value stored (.getNext k idx) := by
  obtain ⟨hcomes, hwhere⟩ := inv
  refine getInv_next (hcomes.next ?_)
  rcases hwhere with hoccupied | hclaims
  · rcases hview.key_eq idx with hsame | ⟨hclaims, -⟩
    · exact .inr (not_stops_of_key hoccupied (hsame ▸ hkey))
    · exact .inl hclaims
  · exact .inl hclaims

/-- **The value that a reader returns** was written for its key. -/
theorem got_of_getValue (hsafe : Safe calls key)
    (hview : View (reached calls) key value stored m) {k : Int64} {idx : Fin maxBuckets}
    (inv : GetInv calls key value stored (.getValue k idx)) :
    GetInv calls key value stored (.got k (some (m.buckets idx).value)) := by
  rintro x ⟨⟩
  rcases hview.value_eq idx with hsame | ⟨htarget, hnew, hstored⟩
  · rw [hsame]
    rcases inv with ⟨hoccupied, hkey⟩ | ⟨hclaims, rfl⟩
    · exact .inl (wrote_of_holds
        ⟨idx, HashBucket.slot_eq_occupied_iff.mpr ⟨hoccupied, hkey, rfl⟩⟩)
    · exact .inl (hsafe idx hclaims).1
  · refine .inr ⟨?_, hnew, hstored⟩
    rcases inv with ⟨hoccupied, hkey⟩ | ⟨-, heq⟩
    · rcases htarget with hclaims | ⟨-, hkey'⟩
      · rw [hclaims.1] at hoccupied
        cases hoccupied
      · exact hkey.symm.trans hkey'
    · exact heq

/-- **One operation of a reader.** -/
theorem get_step (hsafe : Safe calls key) (hview : View (reached calls) key value stored m)
    (inv : GetInv calls key value stored p)
    (hprog : hashThread key value (some r) m p c = some (m', p')) :
    m' = m ∧ GetInv calls key value stored p' := by
  cases p with
  | idle =>
      cases hprog
      exact ⟨rfl, comes_start c⟩
  | got k result =>
      cases hprog
      exact ⟨rfl, comes_start c⟩
  | getState k idx =>
      cases hprog
      refine ⟨rfl, ?_⟩
      have hcomes : Comes (reached calls) key k idx := inv
      have hstate := hview.state_eq idx
      cases hnow : (m.buckets idx).state with
      | empty => exact nofun
      | occupied =>
          rw [hnow] at hstate
          exact ⟨hcomes, hstate.imp Eq.symm And.left⟩
      | deleted =>
          rw [hnow] at hstate
          refine getInv_next (hcomes.next (.inr ?_))
          rcases hstate with hsame | ⟨-, hoccupied⟩
          · exact not_stops_of_deleted hsame.symm
          · cases hoccupied
  | getKey k idx =>
      cases hprog
      refine ⟨rfl, ?_⟩
      split
      · next hkey => exact getValue_of_key hsafe hview inv hkey
      · next hkey => exact getNext_of_key_ne hview inv hkey
  | getValue k idx =>
      cases hprog
      exact ⟨rfl, got_of_getValue hsafe hview inv⟩
  | _ => cases inv

end Get

/-! ## Interleavings of a safe insertion -/

section Safe

variable {calls : List MapCall} {key value : Int64} {s s' : HashThreads}

/-- The insertion has just been called. -/
theorem inv_start (calls : List MapCall) (key value : Int64) :
    Inv calls key value (start (reached calls) key) :=
  ⟨.refl .., ⟨rfl, walk_start⟩, fun _ => trivial⟩

/-- **Every operation keeps the invariant**, if the insertion is safe. -/
theorem Inv.step (hsafe : Safe calls key) (inv : Inv calls key value s) {a : Option Nat × Int64}
    (hstep : Threads.step (hashThread key value) s a = some s') : Inv calls key value s' := by
  obtain ⟨_ | r, c⟩ := a <;> obtain ⟨m, p, hprog, rfl⟩ := step_eq_some.mp hstep
  · obtain ⟨hview, hinsert, hstored⟩ := insert_step inv.view inv.insert hprog
    have hpc : Function.update s.pc none p none = p := Function.update_self ..
    refine ⟨?_, ?_, fun r => ?_⟩ <;> dsimp only
    · rwa [hpc]
    · rwa [hpc]
    · have hr : Function.update s.pc none p (some r) = s.pc (some r) :=
        Function.update_of_ne (Option.some_ne_none r) ..
      rw [hpc, hr]
      exact (inv.get r).mono hstored
  · obtain ⟨rfl, hget⟩ := get_step hsafe inv.view (inv.get r) hprog
    have hpc : Function.update s.pc (some r) p none = s.pc none :=
      Function.update_of_ne (Option.some_ne_none r).symm ..
    refine ⟨?_, ?_, fun r' => ?_⟩ <;> dsimp only
    · rw [hpc]
      exact inv.view
    · rw [hpc]
      exact inv.insert
    · rw [hpc]
      by_cases hr : some r' = some r
      · rwa [hr, Function.update_self]
      · rw [Function.update_of_ne hr]
        exact inv.get r'

/-- Where the invariant holds, nothing foreign is seen. -/
theorem Inv.noForeign (inv : Inv calls key value s) : NoForeign calls key value s := by
  refine ⟨fun r k x hpc => ?_, fun r k idx hpc hclaimed => ?_⟩
  · have hget := inv.get r
    rw [hpc] at hget
    exact hget x rfl
  · have hget := inv.get r
    rw [hpc] at hget
    have hclaims : Claims (reached calls) key idx := by
      have hinsert := inv.insert
      cases hp : s.pc none with
      | insertStoreKey idx' =>
          rw [hp] at hclaimed hinsert
          cases hclaimed
          exact hinsert
      | insertStoreValue idx' =>
          rw [hp] at hclaimed hinsert
          cases hclaimed
          exact hinsert
      | _ =>
          rw [hp] at hclaimed
          cases hclaimed
    rcases hget with ⟨hoccupied, -⟩ | ⟨-, heq⟩
    · rw [hclaims.1] at hoccupied
      cases hoccupied
    · exact heq

end Safe

/-! ## Interleavings of an insertion that is not safe -/

section Unsafe

variable {m : ConcurrentHashMap} {key value k : Int64} {idx : Fin maxBuckets} {r : Nat}

/-- A bucket that is passed is a tombstone or has another key. -/
theorem occupied_of_pass (hstop : ¬ Stops k (m.slots idx))
    (hdeleted : (m.buckets idx).state ≠ .deleted) :
    (m.buckets idx).state = .occupied ∧ (m.buckets idx).key ≠ k := by
  rw [slots, HashBucket.stops_slot_iff, not_or] at hstop
  cases hstate : (m.buckets idx).state with
  | empty => exact absurd hstate hstop.1
  | occupied => exact ⟨rfl, fun hkey => hstop.2 ⟨hstate, hkey⟩⟩
  | deleted => exact absurd hstate hdeleted

/-- The inserter goes to the bucket that it takes. -/
theorem solo_insert {i : Nat} (hi : i < maxBuckets)
    (hpass : ∀ j < i, ¬ Stops key (m.slots (probe (getIndex key) j)))
    (hclean : m.firstTombstone key i = none) :
    ∃ cs, solo (hashThread key value) none m (.insertState (getIndex key) none) cs =
      some (m, .insertState (probe (getIndex key) i) none) := by
  induction i with
  | zero =>
      refine ⟨[], ?_⟩
      rw [probe_zero]
      rfl
  | succ i ih =>
      rw [firstTombstone] at hclean
      split at hclean
      · cases hclean
      · next hdeleted =>
        obtain ⟨cs, hcs⟩ := ih (by omega) (fun j hj => hpass j (by omega)) hclean
        obtain ⟨hstate, hkey⟩ := occupied_of_pass (hpass i (by omega)) hdeleted
        refine ⟨cs ++ [0, 0], solo_append hcs ?_⟩
        simp only [solo, hashThread, hstate, Option.bind_some, if_neg hkey, HashPc.insertNext]
        rw [← probe_succ, if_neg (probe_ne_start (Nat.succ_pos i) hi)]

/-- The map when a bucket was just taken. -/
def marked (m : ConcurrentHashMap) (idx : Fin maxBuckets) : ConcurrentHashMap :=
  m.setBucket idx { m.buckets idx with state := .occupied }

/-- The map when the key was stored, too. -/
def keyed (m : ConcurrentHashMap) (key : Int64) (idx : Fin maxBuckets) : ConcurrentHashMap :=
  (marked m idx).setBucket idx { (marked m idx).buckets idx with key := key }

/-- The bucket is occupied, with the key and value it had, -/
theorem marked_buckets (m : ConcurrentHashMap) (idx : Fin maxBuckets) :
    (marked m idx).buckets idx = ⟨(m.buckets idx).key, (m.buckets idx).value, .occupied⟩ :=
  Function.update_self ..

/-- then with the new key and the value it had. -/
theorem keyed_buckets (m : ConcurrentHashMap) (key : Int64) (idx : Fin maxBuckets) :
    (keyed m key idx).buckets idx = ⟨key, (m.buckets idx).value, .occupied⟩ := by
  have hwritten : (keyed m key idx).buckets idx =
      { (marked m idx).buckets idx with key := key } := Function.update_self ..
  rw [hwritten, marked_buckets]

/-- The inserter takes the bucket. -/
theorem solo_claim (value : Int64) (h : Claims m key idx) :
    ∃ cs, solo (hashThread key value) none m (.insertState (getIndex key) none) cs =
      some (marked m idx, .insertStoreKey idx) := by
  obtain ⟨hempty, i, hi, rfl, hpass, hclean⟩ := h
  obtain ⟨cs, hcs⟩ := solo_insert hi hpass hclean
  refine ⟨cs ++ [0, 0], solo_append hcs ?_⟩
  simp only [solo, hashThread, hempty, Option.bind_some, Option.getD_none, if_true, marked]

/-- The inserter stores the key. -/
theorem solo_key (value : Int64) (h : Claims m key idx) :
    ∃ cs, solo (hashThread key value) none m (.insertState (getIndex key) none) cs =
      some (keyed m key idx, .insertStoreValue idx) := by
  obtain ⟨cs, hcs⟩ := solo_claim value h
  refine ⟨cs ++ [0], solo_append hcs ?_⟩
  simp only [solo, hashThread, Option.bind_some, keyed]

/-- A reader goes to a bucket. -/
theorem solo_get {i : Nat} (hi : i < maxBuckets)
    (hpass : ∀ j < i, ¬ Stops k (m.slots (probe (getIndex k) j))) :
    ∃ cs, solo (hashThread key value) (some r) m (.getState k (getIndex k)) cs =
      some (m, .getState k (probe (getIndex k) i)) := by
  induction i with
  | zero =>
      refine ⟨[], ?_⟩
      rw [probe_zero]
      rfl
  | succ i ih =>
      obtain ⟨cs, hcs⟩ := ih (by omega) fun j hj => hpass j (by omega)
      have hnext : HashPc.getNext k (probe (getIndex k) i) =
          .getState k (probe (getIndex k) (i + 1)) := by
        rw [HashPc.getNext, ← probe_succ, if_neg (probe_ne_start (Nat.succ_pos i) hi)]
      by_cases hdeleted : (m.buckets (probe (getIndex k) i)).state = .deleted
      · refine ⟨cs ++ [0], solo_append hcs ?_⟩
        simp only [solo, hashThread, hdeleted, Option.bind_some, hnext]
      · obtain ⟨hstate, hkey⟩ := occupied_of_pass (hpass i (by omega)) hdeleted
        refine ⟨cs ++ [0, 0], solo_append hcs ?_⟩
        simp only [solo, hashThread, hstate, Option.bind_some, if_neg hkey, hnext]

/-- A reader takes a bucket for its own. -/
theorem solo_match (key value : Int64) (r : Nat) (h : Arrives m k idx)
    (hstate : (m.buckets idx).state = .occupied) (hkey : (m.buckets idx).key = k) :
    ∃ cs, solo (hashThread key value) (some r) m .idle cs = some (m, .getValue k idx) := by
  obtain ⟨i, hi, rfl, hpass⟩ := h
  obtain ⟨cs, hcs⟩ := solo_get hi hpass
  have hbegin : solo (hashThread key value) (some r) m .idle [k] =
      some (m, .getState k (getIndex k)) := rfl
  refine ⟨[k] ++ (cs ++ [0, 0]), solo_append hbegin (solo_append hcs ?_)⟩
  simp only [solo, hashThread, hstate, Option.bind_some, hkey, if_true]

/-- What is in a bucket does not matter for the way to it. -/
theorem Arrives.setBucket (h : Arrives m k idx) (b : HashBucket) :
    Arrives (m.setBucket idx b) k idx := by
  obtain ⟨i, hi, rfl, hpass⟩ := h
  refine ⟨i, hi, rfl, fun j hj => ?_⟩
  have hne : probe (getIndex k) j ≠ probe (getIndex k) i := fun heq =>
    absurd (probe_inj (hj.trans hi) hi heq) hj.ne
  rw [slots_setBucket, Function.update_of_ne hne]
  exact hpass j hj

/-- The inserter moves, and then a reader. -/
theorem exists_run {m m₁ m₂ : ConcurrentHashMap} {p q : HashPc} {cs ds : List Int64}
    (hinsert : solo (hashThread key value) none m (.insertState (getIndex key) none) cs =
      some (m₁, p))
    (hget : solo (hashThread key value) (some r) m₁ .idle ds = some (m₂, q)) :
    ∃ schedule s, run (Threads.step (hashThread key value)) (start m key) schedule = some s ∧
      s.pc none = p ∧ s.pc (some r) = q := by
  have hfirst := run_solo (s := start m key) hinsert
  have hidle : Function.update (start m key).pc none p (some r) = .idle :=
    Function.update_of_ne (Option.some_ne_none r) ..
  have hsecond : solo (hashThread key value) (some r) m₁
      (Function.update (start m key).pc none p (some r)) ds = some (m₂, q) := by
    rwa [hidle]
  refine ⟨_, _, run_append hfirst (run_solo hsecond), ?_, Function.update_self ..⟩
  dsimp only
  rw [Function.update_of_ne (Option.some_ne_none r).symm, Function.update_self]

variable {calls : List MapCall}

/-- **The reader of the old key** takes the bucket for its own. -/
theorem key_of_noForeign
    (hall : ∀ schedule, AllStates (Threads.step (hashThread key value))
      (NoForeign calls key value) (start (reached calls) key) schedule)
    (h : Claims (reached calls) key idx) :
    ((reached calls).buckets idx).key = key ∨
      ¬ Arrives (reached calls) ((reached calls).buckets idx).key idx := by
  rw [or_iff_not_imp_left]
  intro hne harrives
  obtain ⟨cs, hcs⟩ := solo_claim value h
  have hbucket := marked_buckets (reached calls) idx
  have harrives' : Arrives (marked (reached calls) idx) ((reached calls).buckets idx).key idx :=
    harrives.setBucket _
  obtain ⟨ds, hds⟩ := solo_match key value 0 harrives' (by rw [hbucket]) (by rw [hbucket])
  obtain ⟨schedule, s, hrun, hinsert, hget⟩ := exists_run hcs hds
  have hgood := (hall schedule).of_run hrun
  exact hne (hgood.claimed 0 _ idx hget (by rw [hinsert]; rfl))

/-- **The reader of the new key** returns the old value. -/
theorem wrote_of_noForeign
    (hall : ∀ schedule, AllStates (Threads.step (hashThread key value))
      (NoForeign calls key value) (start (reached calls) key) schedule)
    (h : Claims (reached calls) key idx) :
    Wrote calls key ((reached calls).buckets idx).value := by
  obtain ⟨cs, hcs⟩ := solo_key value h
  have hbucket := keyed_buckets (reached calls) key idx
  have harrives : Arrives (keyed (reached calls) key idx) key idx :=
    (h.arrives.setBucket _).setBucket _
  obtain ⟨ds, hds⟩ := solo_match key value 0 harrives (by rw [hbucket]) (by rw [hbucket])
  have hread : solo (hashThread key value) (some 0) (keyed (reached calls) key idx)
      (.getValue key idx) [0] =
        some (keyed (reached calls) key idx,
          .got key (some ((reached calls).buckets idx).value)) := by
    simp only [solo, hashThread, Option.bind_some, hbucket]
  obtain ⟨schedule, s, hrun, hinsert, hget⟩ := exists_run hcs (solo_append hds hread)
  have hgood := (hall schedule).of_run hrun
  refine (hgood.returned 0 key _ hget).resolve_right fun hnew => ?_
  rw [hinsert] at hnew
  cases hnew.2.2

end Unsafe

/-! ## All interleavings -/

/-- **Readers see nothing foreign in any interleaving** exactly if the insertion is safe. -/
theorem noForeign_iff (calls : List MapCall) (key value : Int64) :
    (∀ schedule, AllStates (Threads.step (hashThread key value)) (NoForeign calls key value)
        (start (reached calls) key) schedule) ↔ Safe calls key := by
  constructor
  · exact fun hall idx hclaims => ⟨wrote_of_noForeign hall hclaims, key_of_noForeign hall hclaims⟩
  · intro hsafe schedule
    exact AllStates.of_invariant (fun _ inv => inv.noForeign)
      (fun _ _ _ inv hstep (_ : True) => inv.step hsafe hstep) (inv_start calls key value)
      (allSteps_of_forall (fun _ _ _ _ => trivial) schedule _)

/-- **The first insertion into a new map**: a reader of its key returns a value that was never
written. -/
theorem not_forall_noForeign :
    ¬ ∀ (calls : List MapCall) (key value : Int64) (schedule : List (Option Nat × Int64)),
        AllStates (Threads.step (hashThread key value)) (NoForeign calls key value)
          (start (reached calls) key) schedule := by
  intro hall
  have hclaims : Claims (reached []) 1 (getIndex 1) :=
    ⟨rfl, 0, by decide, (probe_zero _).symm, fun j hj => absurd hj (Nat.not_lt_zero j), rfl⟩
  obtain ⟨before, after, hsplit, -⟩ := wrote_of_noForeign (hall [] 1 100) hclaims
  simp at hsplit

end HashThreads

end StopTrading.DataStructures
