import StopTrading.DataStructures.HashRefinement
import StopTrading.Library.Threads

/-!
# Readers during an insertion into the hash map

One thread inserts into a map while any number of others look keys up, one atomic operation
at a time.  Nobody else writes.

An insertion takes an empty bucket by marking it occupied, and only then stores the key and
the value.  In between the bucket still has the key and the value that it had before, and a
reader takes them for an entry: the reader of the old key takes the bucket for its own, and
the reader of the new key returns the old value.

`Safe` says when nobody can see this; it is about the map before the insertion only, which
earlier calls have left (`reached`).  `Claims`, `Walk` and `Comes` are the ways of the threads
in the terms of that map.

### What is load-bearing

The condition is about what the insertion leaves *unsaid* for a moment.  The bucket it takes was
empty, but empty buckets have a key and a value too: zeros in a new map, and after `clear`
whatever was there.  So `Safe` asks two things of a bucket that is taken.  The old value has to
be one that was once written for the new key, for the reader that sees the new key first; and the
old key has to be the new one, or one whose reader never gets there.

Ways of a thread are described in the map before the insertion, where they do not depend on how
far the insertion is (`Arrives`, `Claims`).  That a thread in the changing map is on such a way
is what `Walk` and `Comes` are for, one for the inserter and one for the readers.
-/

namespace StopTrading.DataStructures

open Transition Threads LinearProbing ConcurrentHashMap

/-! ## The threads -/

/-- Where a thread is: in `insert`, with the bucket it has come to and the first tombstone, or
in `get`, with its key and the bucket. -/
inductive HashPc where
  | insertState (idx : Fin maxBuckets) (firstDeleted : Option (Fin maxBuckets))
  | insertKey (idx : Fin maxBuckets) (firstDeleted : Option (Fin maxBuckets))
  | insertOld (idx : Fin maxBuckets)
  | insertUpdate (idx : Fin maxBuckets) (old : Int64)
  | insertClaim (idx : Fin maxBuckets) (firstDeleted : Option (Fin maxBuckets))
  | insertStoreKey (idx : Fin maxBuckets)
  | insertStoreValue (idx : Fin maxBuckets)
  | insertCount
  | inserted
  | updated (old : Int64)
  | full
  | idle
  | getState (key : Int64) (idx : Fin maxBuckets)
  | getKey (key : Int64) (idx : Fin maxBuckets)
  | getValue (key : Int64) (idx : Fin maxBuckets)
  | got (key : Int64) (result : Option Int64)
  deriving DecidableEq

namespace HashPc

/-- The next round of `insert`. -/
def insertNext (key : Int64) (idx : Fin maxBuckets) (firstDeleted : Option (Fin maxBuckets)) :
    HashPc :=
  if idx + 1 = getIndex key then .full else .insertState (idx + 1) firstDeleted

/-- The next round of `get`. -/
def getNext (key : Int64) (idx : Fin maxBuckets) : HashPc :=
  if idx + 1 = getIndex key then .got key none else .getState key (idx + 1)

/-- The insertion has stored its value. -/
def hasStored : HashPc → Bool
  | .insertCount | .inserted | .updated _ => true
  | _ => false

/-- The insertion has taken a bucket and its entry is not complete. -/
def claimed : HashPc → Option (Fin maxBuckets)
  | .insertStoreKey idx | .insertStoreValue idx => some idx
  | _ => none

end HashPc

/-- **One atomic operation** of `insert(key, value)` or of a `get`; a reader that is idle or
has returned begins a `get` of any key. -/
def hashThread (key value : Int64) :
    Option Nat → ConcurrentHashMap → HashPc → Int64 → Option (ConcurrentHashMap × HashPc)
  | _, m, .insertState idx firstDeleted, _ =>
      some (m, match (m.buckets idx).state with
        | .empty => .insertClaim (firstDeleted.getD idx) firstDeleted
        | .occupied => .insertKey idx firstDeleted
        | .deleted => .insertNext key idx (some (firstDeleted.getD idx)))
  | _, m, .insertKey idx firstDeleted, _ =>
      some (m, if (m.buckets idx).key = key then .insertOld idx
        else .insertNext key idx firstDeleted)
  | _, m, .insertOld idx, _ => some (m, .insertUpdate idx (m.buckets idx).value)
  | _, m, .insertUpdate idx old, _ =>
      some (m.setBucket idx { m.buckets idx with value := value }, .updated old)
  | _, m, .insertClaim idx firstDeleted, _ =>
      -- The compare-exchange expects an empty bucket.
      if (m.buckets idx).state = .empty then
        some (m.setBucket idx { m.buckets idx with state := .occupied }, .insertStoreKey idx)
      else some (m, .insertNext key idx firstDeleted)
  | _, m, .insertStoreKey idx, _ =>
      some (m.setBucket idx { m.buckets idx with key := key }, .insertStoreValue idx)
  | _, m, .insertStoreValue idx, _ =>
      some (m.setBucket idx { m.buckets idx with value := value }, .insertCount)
  | _, m, .insertCount, _ => some ({ m with size := (m.size + 1) % 2 ^ 64 }, .inserted)
  | _, _, .inserted, _ | _, _, .updated _, _ | _, _, .full, _ => none
  | _, m, .idle, k | _, m, .got _ _, k => some (m, .getState k (getIndex k))
  | _, m, .getState k idx, _ =>
      some (m, match (m.buckets idx).state with
        | .empty => .got k none
        | .occupied => .getKey k idx
        | .deleted => .getNext k idx)
  | _, m, .getKey k idx, _ =>
      some (m, if (m.buckets idx).key = k then .getValue k idx else .getNext k idx)
  | _, m, .getValue k idx, _ => some (m, .got k (some (m.buckets idx).value))

/-- The threads and the map: the inserter is `none`, the readers have numbers. -/
abbrev HashThreads := State (Option Nat) HashPc ConcurrentHashMap

namespace HashThreads

/-- The insertion is called; the readers are idle. -/
def start (m : ConcurrentHashMap) (key : Int64) : HashThreads :=
  ⟨m, fun | none => .insertState (getIndex key) none | some _ => .idle⟩

/-! ## The map before -/

/-- The map after earlier calls.  A call that does not return leaves the map as it is. -/
def reached (calls : List MapCall) : ConcurrentHashMap :=
  calls.foldl (fun m c => ((m.call c).map Prod.fst).getD m) .new

/-- **An earlier insertion has written a value for a key.** -/
def Wrote (calls : List MapCall) (key value : Int64) : Prop :=
  ∃ before after, calls = before ++ .insert key value :: after ∧
    Holds (reached (before ++ [.insert key value])).slots key value

/-- One call more. -/
theorem reached_append (calls : List MapCall) (c : MapCall) :
    reached (calls ++ [c]) = (((reached calls).call c).map Prod.fst).getD (reached calls) :=
  List.foldl_concat ..

/-- What was written stays written. -/
theorem Wrote.append {calls : List MapCall} {key value : Int64} (h : Wrote calls key value)
    (c : MapCall) : Wrote (calls ++ [c]) key value := by
  obtain ⟨before, after, rfl, hholds⟩ := h
  exact ⟨before, after ++ [c], by simp, hholds⟩

/-- What an insertion into a map leaves is what was there, or is what it has written. -/
theorem holds_insert {m m' : ConcurrentHashMap} {key value k x : Int64} {old : Option Int64}
    (h : m.insert key value = some (m', old)) (hx : Holds m'.slots k x) :
    Holds m.slots k x ∨ (k = key ∧ x = value) := by
  have hwrite : ∀ idx, Holds (Function.update m.slots idx (.occupied key value)) k x →
      Holds m.slots k x ∨ (k = key ∧ x = value) := by
    rintro idx ⟨idx', hidx⟩
    by_cases hsame : idx' = idx
    · rw [hsame, Function.update_self] at hidx
      cases hidx
      exact .inr ⟨rfl, rfl⟩
    · rw [Function.update_of_ne hsame] at hidx
      exact .inl ⟨idx', hidx⟩
  obtain ⟨i, old', -, -, hreturns⟩ | ⟨i, -, -, -, -, hreturns⟩ | ⟨-, hreturns⟩ |
    ⟨d, e, -, -, -, -, -, hforever⟩ := insert_cases m key value
  · cases h.symm.trans hreturns
    rw [slots_setBucket] at hx
    exact hwrite _ hx
  · cases h.symm.trans hreturns
    have hslots : (m.claim (probe (getIndex key) i) key value).slots =
        Function.update m.slots (probe (getIndex key) i) (.occupied key value) :=
      slots_setBucket m _ _
    rw [hslots] at hx
    exact hwrite _ hx
  · cases h.symm.trans hreturns
    exact .inl hx
  · cases h.symm.trans (insert_eq_none.mpr hforever)

/-- A removal leaves nothing that was not there. -/
theorem holds_remove {m m' : ConcurrentHashMap} {key k x : Int64} {old : Option Int64}
    (h : m.remove key = some (m', old)) (hx : Holds m'.slots k x) : Holds m.slots k x := by
  obtain ⟨found, -, hfound⟩ := Option.map_eq_some_iff.mp h
  cases found with
  | none =>
      cases hfound
      exact hx
  | some idx =>
      cases hfound
      obtain ⟨idx', hidx⟩ := hx
      have hslots := congrFun (slots_setBucket m idx { m.buckets idx with state := .deleted }) idx'
      have hidx' := hslots.symm.trans hidx
      by_cases hsame : idx' = idx
      · rw [hsame, Function.update_self] at hidx'
        cases hidx'
      · rw [Function.update_of_ne hsame] at hidx'
        exact ⟨idx', hidx'⟩

/-- **What the map holds has been written.** -/
theorem wrote_of_holds {calls : List MapCall} {k x : Int64}
    (h : Holds (reached calls).slots k x) : Wrote calls k x := by
  induction calls using List.reverseRecOn with
  | nil =>
      obtain ⟨idx, hidx⟩ := h
      cases hidx
  | append_singleton calls c ih =>
      have hholds := h
      rw [reached_append] at h
      cases hcall : (reached calls).call c with
      | none =>
          rw [hcall] at h
          exact (ih h).append c
      | some r =>
          obtain ⟨m, old⟩ := r
          rw [hcall] at h
          cases c with
          | insert key value =>
              rcases holds_insert hcall h with hold | ⟨rfl, rfl⟩
              · exact (ih hold).append _
              · exact ⟨calls, [], rfl, hholds⟩
          | remove key => exact (ih (holds_remove hcall h)).append _
          | get key =>
              obtain ⟨_, -, hsame⟩ := Option.map_eq_some_iff.mp hcall
              cases hsame
              exact (ih h).append _
          | clear =>
              cases hcall
              obtain ⟨idx, hidx⟩ := h
              cases hidx

/-! ## Searches in the map before -/

/-- **The search for a key comes to a bucket.** -/
def Arrives (m : ConcurrentHashMap) (key : Int64) (idx : Fin maxBuckets) : Prop :=
  ∃ i < maxBuckets, idx = probe (getIndex key) i ∧
    ∀ j < i, ¬ Stops key (m.slots (probe (getIndex key) j))

/-- **An insertion takes a bucket**: it is the first empty one, and there is no tombstone on
the way. -/
def Claims (m : ConcurrentHashMap) (key : Int64) (idx : Fin maxBuckets) : Prop :=
  (m.buckets idx).state = .empty ∧ ∃ i < maxBuckets, idx = probe (getIndex key) i ∧
    (∀ j < i, ¬ Stops key (m.slots (probe (getIndex key) j))) ∧
    m.firstTombstone key i = none

/-- **The bucket that is taken gives nothing away**: its old value was written for the new
key, and its old key is the new one or one whose search does not come to the bucket. -/
def Safe (calls : List MapCall) (key : Int64) : Prop :=
  ∀ idx, Claims (reached calls) key idx →
    Wrote calls key ((reached calls).buckets idx).value ∧
      (((reached calls).buckets idx).key = key ∨
        ¬ Arrives (reached calls) ((reached calls).buckets idx).key idx)

/-- **Readers see nothing foreign**: what a `get` has returned was written for its key, by an
earlier insertion or the running one, and a bucket that was just taken is read by nobody as
that of another key. -/
structure NoForeign (calls : List MapCall) (key value : Int64) (s : HashThreads) : Prop where
  /-- what a reader returns was written for its key -/
  returned : ∀ r k x, s.pc (some r) = .got k (some x) →
    Wrote calls k x ∨ (k = key ∧ x = value ∧ (s.pc none).hasStored = true)
  /-- and a bucket that is not complete is taken for nobody else's -/
  claimed : ∀ r k idx, s.pc (some r) = .getValue k idx → (s.pc none).claimed = some idx → k = key

section Searches

variable {m : ConcurrentHashMap} {key : Int64} {idx : Fin maxBuckets}

/-- The search comes to the bucket that it takes. -/
theorem Claims.arrives (h : Claims m key idx) : Arrives m key idx := by
  obtain ⟨-, i, hi, hidx, hpass, -⟩ := h
  exact ⟨i, hi, hidx, hpass⟩

/-- A tombstone stops no search, -/
theorem not_stops_of_deleted (h : (m.buckets idx).state = .deleted) :
    ¬ Stops key (m.slots idx) := by
  rw [slots, HashBucket.stops_slot_iff, h]
  simp

/-- nor does another key. -/
theorem not_stops_of_key (h : (m.buckets idx).state = .occupied)
    (hkey : (m.buckets idx).key ≠ key) : ¬ Stops key (m.slots idx) := by
  rw [slots, HashBucket.stops_slot_iff, h]
  simp [hkey]

/-- The first tombstone is one, and there is none before it. -/
theorem firstTombstone_eq_some {i : Nat} {d : Fin maxBuckets}
    (h : m.firstTombstone key i = some d) :
    ∃ j < i, d = probe (getIndex key) j ∧ (m.buckets d).state = .deleted ∧
      m.firstTombstone key (j + 1) = some d := by
  induction i with
  | zero => cases h
  | succ i ih =>
      have hwhole := h
      rw [firstTombstone] at h
      split at h
      · next hdeleted =>
        cases hbefore : m.firstTombstone key i with
        | none =>
            rw [hbefore] at h
            cases h
            exact ⟨i, Nat.lt_succ_self i, rfl, hdeleted, hwhole⟩
        | some d' =>
            rw [hbefore] at h
            cases h
            obtain ⟨j, hj, hrest⟩ := ih hbefore
            exact ⟨j, Nat.lt_succ_of_lt hj, hrest⟩
      · obtain ⟨j, hj, hrest⟩ := ih h
        exact ⟨j, Nat.lt_succ_of_lt hj, hrest⟩

/-- **The inserter on its way**, with the first tombstone it has passed. -/
def Walk (m : ConcurrentHashMap) (key : Int64) (idx : Fin maxBuckets)
    (firstDeleted : Option (Fin maxBuckets)) : Prop :=
  ∃ i < maxBuckets, idx = probe (getIndex key) i ∧
    (∀ j < i, ¬ Stops key (m.slots (probe (getIndex key) j))) ∧
    firstDeleted = m.firstTombstone key i

/-- The inserter starts at home, -/
theorem walk_start : Walk m key (getIndex key) none :=
  ⟨0, by decide, (probe_zero _).symm, fun j hj => absurd hj (Nat.not_lt_zero j), rfl⟩

/-- A bucket further. -/
theorem probe_next {i : Nat} (hi : i < maxBuckets)
    (hnext : probe (getIndex key) i + 1 ≠ getIndex key) : i + 1 < maxBuckets := by
  by_contra hlast
  obtain rfl : i = maxBuckets - 1 := by omega
  exact hnext ((probe_succ _ _).symm.trans (probe_self _))

/-- Up to a number, and at it. -/
theorem forall_lt_succ {p : Nat → Prop} {i : Nat} (h : ∀ j < i, p j) (hi : p i) :
    ∀ j < i + 1, p j := by
  intro j hj
  rcases (Nat.lt_succ_iff.mp hj).lt_or_eq with hlt | rfl
  · exact h j hlt
  · exact hi

/-- goes on from a bucket that does not stop it, -/
theorem Walk.next {firstDeleted : Option (Fin maxBuckets)} (h : Walk m key idx firstDeleted)
    (hstop : ¬ Stops key (m.slots idx)) (hnext : idx + 1 ≠ getIndex key) :
    Walk m key (idx + 1) (if (m.buckets idx).state = .deleted then some (firstDeleted.getD idx)
      else firstDeleted) := by
  obtain ⟨i, hi, rfl, hpass, rfl⟩ := h
  exact ⟨i + 1, probe_next hi hnext, (probe_succ _ _).symm, forall_lt_succ hpass hstop, rfl⟩

/-- From the first empty bucket the inserter goes back behind the first tombstone. -/
theorem Walk.back {d : Fin maxBuckets} (h : Walk m key idx (some d)) :
    (m.buckets d).state = .deleted ∧
      (d + 1 ≠ getIndex key → Walk m key (d + 1) (some d)) := by
  obtain ⟨i, hi, rfl, hpass, hfirst⟩ := h
  obtain ⟨j, hj, rfl, hdeleted, hsame⟩ := firstTombstone_eq_some hfirst.symm
  refine ⟨hdeleted, fun _ => ⟨j + 1, by omega, (probe_succ _ _).symm, fun l hl => ?_, hsame.symm⟩⟩
  exact hpass l (by omega)

/-- and takes the bucket if it is empty and there was no tombstone. -/
theorem Walk.claims (h : Walk m key idx none) (hempty : (m.buckets idx).state = .empty) :
    Claims m key idx := by
  obtain ⟨i, hi, hidx, hpass, hfirst⟩ := h
  exact ⟨hempty, i, hi, hidx, hpass, hfirst.symm⟩

/-- One bucket is taken. -/
theorem Claims.unique {idx' : Fin maxBuckets} (h : Claims m key idx) (h' : Claims m key idx') :
    idx = idx' := by
  obtain ⟨hempty, i, hi, rfl, hpass, -⟩ := h
  obtain ⟨hempty', i', hi', rfl, hpass', -⟩ := h'
  rcases lt_trichotomy i i' with hlt | rfl | hgt
  · exact absurd (.inl (HashBucket.slot_eq_empty_iff.mpr hempty)) (hpass' i hlt)
  · rfl
  · exact absurd (.inl (HashBucket.slot_eq_empty_iff.mpr hempty')) (hpass i' hgt)

/-- **A reader comes to a bucket** while the insertion runs: it has passed what its search
passes before, and perhaps the bucket that is taken. -/
def Comes (m : ConcurrentHashMap) (key k : Int64) (idx : Fin maxBuckets) : Prop :=
  ∃ i < maxBuckets, idx = probe (getIndex k) i ∧
    ∀ j < i, Claims m key (probe (getIndex k) j) ∨ ¬ Stops k (m.slots (probe (getIndex k) j))

/-- A reader starts at home, -/
theorem comes_start (k : Int64) : Comes m key k (getIndex k) :=
  ⟨0, by decide, (probe_zero _).symm, fun j hj => absurd hj (Nat.not_lt_zero j)⟩

/-- and goes on from a bucket that does not stop it, or was taken meanwhile. -/
theorem Comes.next {k : Int64} (h : Comes m key k idx)
    (hstop : Claims m key idx ∨ ¬ Stops k (m.slots idx)) (hnext : idx + 1 ≠ getIndex k) :
    Comes m key k (idx + 1) := by
  obtain ⟨i, hi, rfl, hpass⟩ := h
  exact ⟨i + 1, probe_next hi hnext, (probe_succ _ _).symm, forall_lt_succ hpass hstop⟩

/-- A reader that comes to the bucket that is taken would have come there before. -/
theorem Comes.arrives {k : Int64} (h : Comes m key k idx) (hclaims : Claims m key idx) :
    Arrives m k idx := by
  obtain ⟨i, hi, rfl, hpass⟩ := h
  refine ⟨i, hi, rfl, fun j hj => (hpass j hj).resolve_left fun hclaims' => ?_⟩
  exact absurd (probe_inj (hj.trans hi) hi (hclaims'.unique hclaims)) hj.ne

end Searches

end HashThreads

end StopTrading.DataStructures
