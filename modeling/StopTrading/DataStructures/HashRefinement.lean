import StopTrading.DataStructures.ConcurrentHash
import StopTrading.Library.FiniteMap

/-!
# The hash map and the finite map

A run carries the finite map of the entries that were inserted last and not removed, as an
`AList`.  `Agrees` says that a call returns, with what the finite map has, and that the
lookups and the length agree afterwards.

The table is lawful as long as no call goes wrong (`Inv`), and a call goes wrong exactly
when a new key is inserted whose search meets a tombstone before the first empty bucket:
then the call does not return, or, in a table without empty buckets, the entry is lost.

### Design decisions

The finite map is an `AList`, which the run carries beside the table.  It is not computed from
the table: a table that has gone wrong holds nothing that could be compared, and a call that does
not return leaves no table at all.

`Clean` speaks of the table before the call, of its buckets on the way of one key.  It could be
said of the history instead (which keys were removed), but not without the hash function, and the
table is what a user of the map could look at.

### What is load-bearing

Every call that returns keeps the table lawful, so the difficulty is only that a call has to
return (`Inv.insert`).  In the other direction a call that goes wrong has to be seen in `Agrees`:
it does not return, which is its first clause, or the entry is dropped, which is seen by the
lookup of that key (`clean_of_agrees`).
-/

namespace StopTrading.DataStructures

open Transition MachineInt LinearProbing FiniteMap ConcurrentHashMap

/-- A call on the map. -/
inductive MapCall where
  | insert (key value : Int64)
  | remove (key : Int64)
  | get (key : Int64)
  | clear
  deriving DecidableEq

/-- What a call leaves behind and returns; `none` if it does not return. -/
def ConcurrentHashMap.call (m : ConcurrentHashMap) :
    MapCall → Option (ConcurrentHashMap × Option Int64)
  | .insert key value => m.insert key value
  | .remove key => m.remove key
  | .get key => (m.get key).map fun value => (m, value)
  | .clear => some (m.clear, none)

/-- The finite map. -/
abbrev Reference := AList fun _ : Int64 => Int64

/-- What a call does to the finite map. -/
def Reference.after (ref : Reference) : MapCall → Reference
  | .insert key value => AList.insert key value ref
  | .remove key => AList.erase key ref
  | .get _ => ref
  | .clear => ∅

/-- What a call finds in the finite map. -/
def Reference.answer (ref : Reference) : MapCall → Option Int64
  | .insert key _ | .remove key | .get key => AList.lookup key ref
  | .clear => none

/-- A map and its finite map. -/
structure HashRun where
  map : ConcurrentHashMap
  reference : Reference

namespace HashRun

/-- A new map. -/
def init : HashRun := ⟨.new, ∅⟩

/-- One call.  A call that does not return leaves the map as it is. -/
def step (r : HashRun) (c : MapCall) : Option HashRun :=
  some ⟨((r.map.call c).map Prod.fst).getD r.map, r.reference.after c⟩

/-- **A call returns what the finite map has**, and the maps agree afterwards. -/
structure Agrees (r : HashRun) (c : MapCall) (r' : HashRun) : Prop where
  /-- the call returns what the finite map has -/
  returns : ∃ m, r.map.call c = some (m, r.reference.answer c)
  /-- every lookup finds what the finite map has -/
  get : ∀ key, r'.map.get key = some (r'.reference.lookup key)
  /-- and the length is the number of keys -/
  len : r'.map.len = r'.reference.keys.length

/-- **The search of a new key meets no tombstone** before the first empty bucket. -/
def Clean (r : HashRun) (c : MapCall) (_ : HashRun) : Prop :=
  ∀ key value, c = .insert key value → key ∉ r.reference →
    ∀ i < maxBuckets, (r.map.buckets (probe (getIndex key) i)).state = .deleted →
      ∃ j < i, (r.map.buckets (probe (getIndex key) j)).state = .empty

/-- There are no more keys than buckets. -/
def Fits (_ : HashRun) (_ : MapCall) (r' : HashRun) : Prop :=
  r'.reference.keys.length ≤ maxBuckets

instance (r : HashRun) (c : MapCall) (r' : HashRun) : Decidable (Fits r c r') :=
  inferInstanceAs (Decidable (_ ≤ _))

/-- **The invariant**: the table is lawful and holds the finite map. -/
structure Inv (r : HashRun) : Prop where
  /-- no search stops too early -/
  lawful : Lawful getIndex r.map.slots
  /-- the entries are those of the finite map -/
  holds_iff : ∀ key value, Holds r.map.slots key value ↔ r.reference.lookup key = some value
  /-- they are counted -/
  size_eq : r.map.size = r.reference.keys.length
  /-- and there are no more of them than buckets -/
  fits : r.reference.keys.length ≤ maxBuckets

/-- Nothing is stored. -/
theorem inv_init : init.Inv :=
  ⟨lawful_empty _, fun _ _ => iff_of_false (by rintro ⟨_, ⟨⟩⟩) nofun, rfl, Nat.zero_le _⟩

namespace Inv

variable {r : HashRun}

/-- A key that the table does not hold is not in the finite map. -/
theorem absent_iff (inv : r.Inv) {key : Int64} :
    (∀ value, ¬ Holds r.map.slots key value) ↔ key ∉ r.reference := by
  rw [← AList.lookup_eq_none, Option.eq_none_iff_forall_ne_some]
  exact forall_congr' fun value => not_congr (inv.holds_iff key value)

/-- **The search** in a map that satisfies the invariant. -/
theorem findLoop_eq (inv : r.Inv) (key : Int64) :
    (∃ idx value, r.map.slots idx = .occupied key value ∧
        r.reference.lookup key = some value ∧
        r.map.findLoop key maxBuckets (getIndex key) = some (some idx)) ∨
      (r.reference.lookup key = none ∧
        r.map.findLoop key maxBuckets (getIndex key) = some none) := by
  obtain ⟨idx, value, hslot, hfound⟩ | ⟨habsent, hfound⟩ := findLoop_lawful inv.lawful key
  · exact .inl ⟨idx, value, hslot, (inv.holds_iff key value).mp ⟨idx, hslot⟩, hfound⟩
  · exact .inr ⟨AList.lookup_eq_none.mpr (inv.absent_iff.mp habsent), hfound⟩

/-- **Lookups agree.** -/
theorem get_eq (inv : r.Inv) (key : Int64) : r.map.get key = some (r.reference.lookup key) := by
  unfold ConcurrentHashMap.get
  obtain ⟨idx, value, hslot, hlookup, hfound⟩ | ⟨hlookup, hfound⟩ := inv.findLoop_eq key
  · rw [hfound, hlookup, Option.map_some, Option.map_some,
      (HashBucket.slot_eq_occupied_iff.mp hslot).2.2]
  · rw [hfound, hlookup]
    rfl

/-- Writing a key that is there keeps the invariant. -/
theorem overwrite (inv : r.Inv) {idx : Fin maxBuckets} {key old : Int64}
    (hslot : r.map.slots idx = .occupied key old) (value : Int64) :
    Inv ⟨r.map.setBucket idx ⟨key, value, .occupied⟩, AList.insert key value r.reference⟩ := by
  have hlength := length_insert_old (mem_of_lookup ((inv.holds_iff key old).mp ⟨idx, hslot⟩)) value
  refine ⟨?_, fun key' value' => ?_, inv.size_eq.trans hlength.symm, hlength ▸ inv.fits⟩
  · rw [slots_setBucket]
    exact inv.lawful.rewrite hslot (.inr ⟨value, rfl⟩)
  · rw [slots_setBucket]
    refine (holds_write (fun k' v' h => ?_) (fun idx' v' h => ?_) value key' value').trans ?_
    · rw [hslot] at h
      cases h
      rfl
    · exact inv.lawful.distinct h hslot
    · rw [inv.holds_iff, lookup_insert_iff]

/-- Taking an empty bucket for a new key keeps the invariant. -/
theorem claim (inv : r.Inv) {i : Nat} {key : Int64} (hi : i < maxBuckets)
    (hpass : ∀ j < i, ¬ Stops key (r.map.slots (probe (getIndex key) j)))
    (hempty : (r.map.buckets (probe (getIndex key) i)).state = .empty)
    (habsent : key ∉ r.reference) (value : Int64)
    (hfits : (AList.insert key value r.reference).keys.length ≤ maxBuckets) :
    Inv ⟨r.map.claim (probe (getIndex key) i) key value, AList.insert key value r.reference⟩ := by
  have hslots : (r.map.claim (probe (getIndex key) i) key value).slots =
      Function.update r.map.slots (probe (getIndex key) i) (.occupied key value) :=
    slots_setBucket r.map _ _
  have hlength := length_insert_new habsent value
  refine ⟨?_, fun key' value' => ?_, ?_, hfits⟩
  · rw [hslots]
    exact inv.lawful.claim hi (fun j hj hslot => hpass j hj (.inl hslot))
      (inv.absent_iff.mpr habsent) value
  · rw [hslots]
    refine (holds_write (fun k' v' h => ?_) (fun idx' v' h => ?_) value key' value').trans ?_
    · have hslot : r.map.slots (probe (getIndex key) i) = .empty :=
        HashBucket.slot_eq_empty_iff.mpr hempty
      rw [hslot] at h
      cases h
    · exact absurd ⟨idx', h⟩ (inv.absent_iff.mpr habsent v')
    · rw [inv.holds_iff, lookup_insert_iff]
  · show (r.map.size + 1) % 2 ^ 64 = _
    rw [hlength] at hfits ⊢
    have hmax : maxBuckets < 2 ^ 64 := by decide
    rw [inv.size_eq, Nat.mod_eq_of_lt (by omega)]

/-- Removing keeps the invariant, and returns what was there. -/
theorem remove (inv : r.Inv) (key : Int64) :
    ∃ m, r.map.remove key = some (m, r.reference.lookup key) ∧
      Inv ⟨m, AList.erase key r.reference⟩ := by
  unfold ConcurrentHashMap.remove
  obtain ⟨idx, value, hslot, hlookup, hfound⟩ | ⟨hlookup, hfound⟩ := inv.findLoop_eq key
  · have hlength := length_erase (mem_of_lookup hlookup)
    have hfits := inv.fits
    have hmax : maxBuckets < 2 ^ 64 := by decide
    have hvalue : (r.map.buckets idx).value = value :=
      (HashBucket.slot_eq_occupied_iff.mp hslot).2.2
    rw [hfound, hlookup, Option.map_some, ← hvalue]
    have hfits' : (AList.erase key r.reference).keys.length ≤ maxBuckets := by omega
    refine ⟨_, rfl, ?_, fun key' value' => ?_, ?_, hfits'⟩
    · show Lawful getIndex (r.map.setBucket idx _).slots
      rw [slots_setBucket]
      exact inv.lawful.rewrite hslot (.inl rfl)
    · show Holds (r.map.setBucket idx _).slots key' value' ↔ _
      rw [slots_setBucket]
      refine (holds_delete inv.lawful hslot key' value').trans ?_
      rw [inv.holds_iff, lookup_erase_iff]
    · show u64 ((r.map.size : Int) - 1) = (AList.erase key r.reference).keys.length
      rw [inv.size_eq, u64_of_range (by omega) (by omega)]
      omega
  · have hsame := erase_of_not_mem (AList.lookup_eq_none.mp hlookup)
    rw [hfound, hlookup, hsame]
    exact ⟨r.map, rfl, inv⟩

/-- A cleared map is like a new one. -/
theorem clear (m : ConcurrentHashMap) : Inv ⟨m.clear, ∅⟩ := by
  have hslots : m.clear.slots = fun _ => .empty := by
    funext idx
    exact HashBucket.slot_eq_empty_iff.mpr rfl
  refine ⟨?_, fun key value => ?_, rfl, Nat.zero_le _⟩
  · rw [hslots]
    exact lawful_empty _
  · rw [hslots]
    exact iff_of_false (by rintro ⟨_, ⟨⟩⟩) nofun

/-- A key is not held if its search stops at an empty bucket. -/
theorem absent_of_empty (inv : r.Inv) {key : Int64} {i : Nat}
    (hpass : ∀ j < i, ¬ Stops key (r.map.slots (probe (getIndex key) j)))
    (hempty : (r.map.buckets (probe (getIndex key) i)).state = .empty) : key ∉ r.reference := by
  have hslot : r.map.slots (probe (getIndex key) i) = .empty :=
    HashBucket.slot_eq_empty_iff.mpr hempty
  rw [← inv.absent_iff]
  rintro v hheld
  obtain ⟨i', -, hslot', hfirst'⟩ := inv.lawful.first_stop hheld
  rcases lt_trichotomy i' i with hlt | rfl | hgt
  · exact hpass i' hlt (.inr ⟨v, hslot'⟩)
  · rw [hslot] at hslot'
    cases hslot'
  · exact hfirst' i hgt (.inl hslot)

/-- A key is not held if nothing stops its search. -/
theorem absent_of_full (inv : r.Inv) {key : Int64}
    (hnone : ∀ i < maxBuckets, ¬ Stops key (r.map.slots (probe (getIndex key) i))) :
    key ∉ r.reference := by
  rw [← inv.absent_iff]
  rintro v ⟨idx, hidx⟩
  obtain ⟨i, hi, rfl⟩ := exists_probe (getIndex key) idx
  exact hnone i hi (.inr ⟨v, hidx⟩)

/-- **Inserting**, if the search of a new key meets no tombstone. -/
theorem insert (inv : r.Inv) (key value : Int64)
    (hclean : key ∉ r.reference →
      ∀ i < maxBuckets, (r.map.buckets (probe (getIndex key) i)).state = .deleted →
        ∃ j < i, (r.map.buckets (probe (getIndex key) j)).state = .empty)
    (hfits : (AList.insert key value r.reference).keys.length ≤ maxBuckets) :
    ∃ m, r.map.insert key value = some (m, r.reference.lookup key) ∧
      Inv ⟨m, AList.insert key value r.reference⟩ := by
  obtain ⟨i, old, hi, hslot, hreturns⟩ | ⟨i, hi, hpass, -, hempty, hreturns⟩ |
    ⟨hnone, hreturns⟩ | ⟨d, e, hde, he, hdeleted, hpass, hempty, -⟩ := insert_cases r.map key value
  · rw [(inv.holds_iff key old).mp ⟨_, hslot⟩]
    exact ⟨_, hreturns, inv.overwrite hslot value⟩
  · have habsent := inv.absent_of_empty hpass hempty
    rw [AList.lookup_eq_none.mpr habsent]
    exact ⟨_, hreturns, inv.claim hi hpass hempty habsent value hfits⟩
  · -- Without a stop every bucket is taken by another key, and there is one key too many.
    exfalso
    have habsent := inv.absent_of_full hnone
    have hfull : ∀ idx, ∃ k v, r.map.slots idx = .occupied k v := by
      intro idx
      obtain ⟨i, hi, rfl⟩ := exists_probe (getIndex key) idx
      cases hslot : r.map.slots (probe (getIndex key) i) with
      | empty => exact absurd (.inl hslot) (hnone i hi)
      | occupied k v => exact ⟨k, v, rfl⟩
      | deleted =>
          obtain ⟨j, hj, hempty⟩ := hclean habsent i hi (HashBucket.slot_eq_deleted_iff.mp hslot)
          exact absurd (.inl (HashBucket.slot_eq_empty_iff.mpr hempty)) (hnone j (hj.trans hi))
    have hcard : maxBuckets ≤ r.reference.keys.length :=
      inv.lawful.card_le_of_full hfull fun k v hheld => by
        rw [← AList.mem_keys, ← AList.lookup_isSome, (inv.holds_iff k v).mp hheld]
        rfl
    rw [length_insert_new habsent] at hfits
    omega
  · -- The tombstone is not behind an empty bucket.
    obtain ⟨j, hj, hfree⟩ :=
      hclean (inv.absent_of_empty hpass hempty) d (hde.trans he) hdeleted
    exact absurd (.inl (HashBucket.slot_eq_empty_iff.mpr hfree)) (hpass j (hj.trans hde))

/-- **A clean call** keeps the invariant, and returns what the finite map has. -/
theorem call (inv : r.Inv) {c : MapCall} {r' : HashRun} (hclean : r.Clean c r')
    (hfits : (r.reference.after c).keys.length ≤ maxBuckets) :
    ∃ m, r.map.call c = some (m, r.reference.answer c) ∧ Inv ⟨m, r.reference.after c⟩ := by
  cases c with
  | insert key value => exact inv.insert key value (hclean key value rfl) hfits
  | remove key => exact inv.remove key
  | get key =>
      refine ⟨r.map, ?_, inv⟩
      show (r.map.get key).map _ = _
      rw [inv.get_eq]
      rfl
  | clear => exact ⟨r.map.clear, rfl, Inv.clear r.map⟩

/-- What the invariant says of the map afterwards is that its lookups agree. -/
theorem agrees {c : MapCall} {m : ConcurrentHashMap}
    (hreturns : r.map.call c = some (m, r.reference.answer c))
    (inv' : Inv ⟨m, r.reference.after c⟩) : r.Agrees c ⟨m, r.reference.after c⟩ :=
  ⟨⟨m, hreturns⟩, inv'.get_eq, inv'.size_eq⟩

/-- A clean step keeps the invariant and agrees. -/
theorem step (inv : r.Inv) {c : MapCall} {r' : HashRun} (hstep : r.step c = some r')
    (hfits : r.Fits c r') (hclean : r.Clean c r') : r'.Inv ∧ r.Agrees c r' := by
  cases Option.some.inj hstep
  obtain ⟨m, hreturns, inv'⟩ := inv.call hclean hfits
  rw [hreturns]
  exact ⟨inv', agrees hreturns inv'⟩

/-- **A step that agrees is clean.** -/
theorem clean_of_agrees (inv : r.Inv) {c : MapCall} {r' : HashRun} (hstep : r.step c = some r')
    (hagrees : r.Agrees c r') : r.Clean c r' := by
  rintro key value rfl habsent i hi hdeleted
  cases Option.some.inj hstep
  obtain ⟨m, hreturns⟩ := hagrees.returns
  have hcall : r.map.call (.insert key value) = r.map.insert key value := rfl
  obtain ⟨e, old, -, hslot, -⟩ | ⟨e, he, -, hfirst, hempty, -⟩ | ⟨-, hfull⟩ |
    ⟨d, e, -, -, -, -, -, hforever⟩ := insert_cases r.map key value
  · exact absurd ⟨_, hslot⟩ (inv.absent_iff.mpr habsent old)
  · refine ⟨e, ?_, hempty⟩
    rcases lt_trichotomy e i with hlt | rfl | hgt
    · exact hlt
    · rw [hempty] at hdeleted
      cases hdeleted
    · exact absurd hdeleted (hfirst i hgt)
  · -- The entry is lost, and the length does not show it.
    have hlen := hagrees.len
    rw [hcall, hfull] at hlen
    have hlength := length_insert_new habsent value
    have hsize := inv.size_eq
    change r.map.size = (AList.insert key value r.reference).keys.length at hlen
    omega
  · rw [hcall, insert_eq_none.mpr hforever] at hreturns
    cases hreturns

end Inv

/-! ## Runs -/

/-- **The map agrees with the finite map** exactly in the runs in which the search of every
new key meets no tombstone before the first empty bucket. -/
theorem agrees_iff_clean (calls : List MapCall) (hfits : AllSteps step Fits init calls) :
    AllSteps step Clean init calls ↔ AllSteps step Agrees init calls :=
  allSteps_iff_of_invariant (fun _ _ _ inv hstep hfits hclean => inv.step hstep hfits hclean)
    (fun _ _ _ inv hstep _ hagrees => inv.clean_of_agrees hstep hagrees) calls init inv_init hfits

/-- An entry is inserted, found and removed. -/
theorem agrees_insertedAndRemoved :
    AllSteps step Agrees init [.insert 1 100, .get 1, .remove 1] := by
  refine (agrees_iff_clean _ (by decide)).mp ⟨?_, nofun, nofun, trivial⟩
  rintro key value - - i - hdeleted
  cases hdeleted

/-- **An entry is removed and inserted again**: the second insertion does not return. -/
theorem not_forall_callsAgree :
    ¬ ∀ calls : List MapCall, AllSteps step Fits init calls → AllSteps step Agrees init calls := by
  intro hall
  obtain ⟨-, -, ⟨⟨m, hreturns⟩, -, -⟩, -⟩ :=
    hall [.insert 1 100, .remove 1, .insert 1 100] (by decide)
  refine absurd (hreturns.symm.trans (insert_eq_none_of_tombstone 100 ?_ ?_)) nofun
  · rfl
  · rfl

end HashRun

end StopTrading.DataStructures
