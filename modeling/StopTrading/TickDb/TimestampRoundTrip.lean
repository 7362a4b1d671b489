import StopTrading.TickDb.TimestampWords

/-!
# When timestamps survive the codec

The decompressor takes the value it reads for the new delta, not for the change
of the delta, and it reads the medium class without a sign and the small class
with one bit less than the compressor wrote.  `StepFaithful d δ` lists the deltas
`δ` that nevertheless come back after a previous delta `d`:

* the delta is repeated;
* the previous delta is zero and the delta is in one of the two ranges whose
  encoding is read back unchanged;
* two coincidences, in which the misread value happens to be the delta.

`Faithful` asks this of every timestamp after the first.  Along a faithful
prefix compressor and decompressor agree on the previous delta, which is the
invariant of both inductions below: `nextN_of_faithful` (a faithful series comes
back) and `faithful_of_nextN` (a series that comes back is faithful up to its
first accidental step).

A change of the delta by 1024 or more is misread past its own code word, so the
value read depends on the words that follow.  `Accidental` is what these words
cannot influence: enough bits follow, and the low bits of the change are the high
bits of the delta.  No change below `2 ^ 31 - 1` is accidental.

### Design decisions

* `StepFaithful` lists deltas and not code words.  It is the condition a user of the codec can
  check on timestamps, and it mentions neither bits nor the decompressor.
* Accidents are kept in the statement instead of being excluded by a bound.  The bound comes as a
  corollary about steady series (`not_reachesAccidentFrom`), whose gaps change too little for
  one.
-/

namespace StopTrading.TickDb

open BitString MachineInt

/-- **The deltas that come back** after a previous delta `d`. -/
def StepFaithful (d δ : Int) : Prop :=
  δ = d ∨
  (d = 0 ∧ (-16 ≤ δ ∧ δ ≤ 15 ∨ 32 ≤ δ ∧ δ ≤ 1023)) ∨
  (d = 32 ∧ 1 ≤ δ ∧ δ ≤ 15) ∨
  (d = 2 * δ ∧ 32 ≤ δ ∧ δ ≤ 1023)

instance (d δ : Int) : Decidable (StepFaithful d δ) := by
  unfold StepFaithful
  infer_instance

/-- Every further timestamp is a faithful step, from a previous delta and
timestamp. -/
def FaithfulFrom : Int → Nat → List Nat → Prop
  | _, _, [] => True
  | d, p, t :: ts => StepFaithful d (t - p) ∧ FaithfulFrom (t - p) t ts

/-- **A large change that may come back by accident**: the decompressor finds all
the bits it borrows, the padding of the last byte included, and the low bits of
the change are the high bits of the delta. -/
def Accidental (d δ : Int) (rest : List Bool) : Prop :=
  1024 ≤ (δ - d).natAbs ∧ borrowedBits (i64 (δ - d)) ≤ rest.length + 7 ∧
    u64 δ / 2 ^ borrowedBits (i64 (δ - d)) =
      (i64 (δ - d)).natAbs % 2 ^ (64 - borrowedBits (i64 (δ - d)))

/-- The first step that is not faithful is an accidental one. -/
def ReachesAccidentFrom : Int → Nat → List Nat → Prop
  | _, _, [] => False
  | d, p, t :: ts =>
      Accidental d (t - p) (dodStream (t - p) t ts) ∨
        (StepFaithful d (t - p) ∧ ReachesAccidentFrom (t - p) t ts)

/-- Every step changes the delta by less than `2 ^ 31 - 1`. -/
def SteadyFrom : Int → Nat → List Nat → Prop
  | _, _, [] => True
  | d, p, t :: ts => ((t : Int) - p - d).natAbs < 2 ^ 31 - 1 ∧ SteadyFrom (t - p) t ts

/-- **The series that survive**: every step after the first timestamp is
faithful, starting from a previous delta of zero. -/
def Faithful : List Nat → Prop
  | [] => True
  | t :: ts => FaithfulFrom 0 t ts

/-- The series whose first unfaithful step is an accidental one. -/
def ReachesAccident : List Nat → Prop
  | [] => False
  | t :: ts => ReachesAccidentFrom 0 t ts

/-- The series whose gaps never change by `2 ^ 31 - 1` or more. -/
def Steady : List Nat → Prop
  | [] => True
  | t :: ts => SteadyFrom 0 t ts

/-! ## One step -/

/-- Below the large class, the value read is the delta exactly on faithful
steps. -/
theorem valueRead_eq_iff {d δ : Int} (hd : -16 ≤ d) (hclass : (δ - d).natAbs < 1024) :
    valueRead d (δ - d) = δ ↔ StepFaithful d δ := by
  unfold valueRead StepFaithful
  split
  · omega
  · split
    · split <;> omega
    · omega

/-- A faithful step stays within the range of deltas that can be read. -/
theorem StepFaithful.range {d δ : Int} (h : StepFaithful d δ) (hd : -16 ≤ d ∧ d ≤ 1023) :
    (-16 ≤ δ ∧ δ ≤ 1023) ∧ (δ - d).natAbs < 1024 := by
  unfold StepFaithful at h
  omega

/-- Moving from `p` by a readable value lands on `t` exactly when the value is
the delta. -/
private theorem move_eq_iff {p t : Nat} {v : Int} (hp : p < 2 ^ 63) (ht : t < 2 ^ 63)
    (hv : -16 ≤ v ∧ v ≤ 1023) : u64 (i64 p + v) = t ↔ v = t - p := by
  rw [i64_of_range (x := p) (by omega) (by omega)]
  unfold u64
  omega

/-- What is read below the large class is small, -/
private theorem valueRead_range {d dod : Int} (hd : -16 ≤ d ∧ d ≤ 1023) (h : dod.natAbs < 1024) :
    -16 ≤ valueRead d dod ∧ valueRead d dod ≤ 1023 := by
  unfold valueRead
  split
  · exact hd
  · split
    · split <;> omega
    · omega

/-- and the delta of two timestamps does not wrap. -/
private theorem i64_delta {p t : Nat} (hp : p < 2 ^ 63) (ht : t < 2 ^ 63) :
    i64 (i64 t - i64 p) = t - p := by
  rw [i64_of_range (x := t) (by omega) (by omega),
    i64_of_range (x := p) (by omega) (by omega), i64_of_range (by omega) (by omega)]

/-- The first word of a stream whose first step is below the large class. -/
private theorem dodStream_step {d : Int} {p t : Nat} {ts : List Nat} (hp : p < 2 ^ 63)
    (ht : t < 2 ^ 63) (hclass : ((t : Int) - p - d).natAbs < 1024) :
    dodStream d p (t :: ts) = dodCode (t - p - d) ++ dodStream (t - p) t ts := by
  rw [dodStream_cons, i64_delta hp ht, i64_of_range (by omega) (by omega)]

/-- **No change below `2 ^ 31 - 1` is accidental.** -/
theorem not_accidental {d δ : Int} (hd : -16 ≤ d ∧ d ≤ 1023)
    (h : (δ - d).natAbs < 2 ^ 31 - 1) (rest : List Bool) : ¬ Accidental d δ rest := by
  rintro ⟨hlarge, -, hbits⟩
  rw [i64_of_range (by omega) (by omega)] at hbits
  have hor : (δ - d).natAbs ||| 1 < 2 ^ 31 := Nat.or_lt_two_pow (by omega) (by norm_num)
  have hlead := le_leadingZeros hor
  have hwidth : changeBits (δ - d) = 33 := by
    unfold changeBits maxLeadingZeros
    omega
  have htop : (δ - d).natAbs.testBit 32 = false := Nat.testBit_lt_two_pow (by omega)
  have hborrow : borrowedBits (δ - d) = 33 := by
    rw [borrowedBits, hwidth, htop]
    rfl
  rw [hborrow, Nat.mod_eq_of_lt (show (δ - d).natAbs < 2 ^ (64 - 33) by omega)] at hbits
  -- a small delta has the high bits zero or all set, the change has neither
  have hhigh : u64 δ / 2 ^ 33 = 0 ∨ u64 δ / 2 ^ 33 = 2 ^ 31 - 1 := by
    unfold u64
    omega
  omega

/-- **A large change that comes back is an accidental one.** -/
theorem accidental_of_next {dec : TimestampDecompressor} {d : Int} {p t : Nat}
    {rest pad : List Bool} (hd : -16 ≤ d ∧ d ≤ 1023) (hp : p < 2 ^ 63) (ht : t < 2 ^ 63)
    (hlarge : 1024 ≤ ((t : Int) - p - d).natAbs) (hfirst : dec.first = false)
    (hprev : dec.prevTimestamp = p)
    (hpad : pad.length < 8)
    (hrem : dec.input.remaining = dodCode (i64 (t - p - d)) ++ (rest ++ pad))
    (hback : dec.next.1 = some t) : Accidental d (t - p) rest := by
  refine ⟨hlarge, ?_⟩
  have hmove : i64 p = p := i64_of_range (by omega) (by omega)
  generalize hdod : i64 (t - p - d) = dod at hrem ⊢
  have hrange : -2 ^ 63 ≤ dod ∧ dod < 2 ^ 63 := hdod ▸ i64_range _
  have hlow : 1024 ≤ dod.natAbs := by
    rw [← hdod]
    unfold i64
    rw [Int.bmod_def]
    omega
  by_cases hmin : dod = -2 ^ 63
  · -- the one change whose absolute value wraps is written as a small one, zero
    rw [hmin, dodCode_min, List.cons_append] at hrem
    obtain ⟨input, hinput, hnext⟩ := TimestampDecompressor.next_fst hfirst hrem
    rw [List.append_assoc] at hinput
    obtain ⟨input', hread, -⟩ := TimestampDecompressor.readDod_small (by norm_num) hinput
    rw [hnext, hread, hprev, hmove] at hback
    have hstay := Option.some.inj hback
    simp only [Nat.reduceLeDiff, if_false] at hstay
    unfold u64 at hstay
    omega
  · have hlt : dod.natAbs < 2 ^ 63 := by omega
    rw [dodCode_large hlow hlt, List.cons_append, List.cons_append, List.append_assoc,
      List.append_assoc] at hrem
    obtain ⟨input, hinput, hnext⟩ := TimestampDecompressor.next_fst hfirst hrem
    rw [hnext, hprev, hmove] at hback
    obtain ⟨v, hv, hmoved⟩ := Option.map_eq_some_iff.mp hback
    obtain ⟨henough, hbits⟩ := TimestampDecompressor.readDod_large hlt hinput hv
    have hdelta : u64 (t - p) = u64 v := by
      unfold u64 at hmoved ⊢
      omega
    rw [List.length_append] at henough
    rw [hdelta]
    exact ⟨by omega, hbits⟩

/-! ## The two directions -/

/-- **A faithful series comes back.** -/
theorem nextN_of_faithful :
    ∀ (ts : List Nat) (d : Int) (p : Nat) (dec : TimestampDecompressor) (pad : List Bool),
      (-16 ≤ d ∧ d ≤ 1023) → p < 2 ^ 63 → (∀ t ∈ ts, t < 2 ^ 63) →
      dec.first = false → dec.prevTimestamp = p → dec.prevDelta = d →
      dec.input.remaining = dodStream d p ts ++ pad → FaithfulFrom d p ts →
      dec.nextN ts.length = ts.map some := by
  intro ts
  induction ts with
  | nil => intros; rfl
  | cons t ts ih =>
      intro d p dec pad hd hp hts hfirst hprev hdelta hrem hfaithful
      have ht : t < 2 ^ 63 := hts t List.mem_cons_self
      obtain ⟨hrange, hclass⟩ := hfaithful.1.range hd
      have hvalue : valueRead d (t - p - d) = t - p :=
        (valueRead_eq_iff hd.1 hclass).mpr hfaithful.1
      rw [dodStream_step hp ht hclass, List.append_assoc] at hrem
      obtain ⟨input, hnext, hrest⟩ :=
        TimestampDecompressor.next_dodCode hfirst hclass hrem
      have hmove : u64 (i64 p + (t - p)) = t := (move_eq_iff hp ht hrange).mpr rfl
      rw [hprev, hdelta, hvalue, hmove] at hnext
      rw [List.length_cons, TimestampDecompressor.nextN, hnext, List.map_cons]
      dsimp only
      rw [List.cons_eq_cons]
      refine ⟨rfl, ?_⟩
      exact ih _ t ⟨input, t, t - p, false⟩ pad hrange ht
        (fun t' h' => hts t' (List.mem_cons_of_mem _ h'))
        rfl rfl rfl hrest hfaithful.2

/-- **A series that comes back** is faithful up to its first accidental step. -/
theorem faithful_of_nextN :
    ∀ (ts : List Nat) (d : Int) (p : Nat) (dec : TimestampDecompressor) (pad : List Bool),
      (-16 ≤ d ∧ d ≤ 1023) → pad.length < 8 → p < 2 ^ 63 → (∀ t ∈ ts, t < 2 ^ 63) →
      dec.first = false → dec.prevTimestamp = p → dec.prevDelta = d →
      dec.input.remaining = dodStream d p ts ++ pad → dec.nextN ts.length = ts.map some →
      FaithfulFrom d p ts ∨ ReachesAccidentFrom d p ts := by
  intro ts
  induction ts with
  | nil => intros; exact Or.inl trivial
  | cons t ts ih =>
      intro d p dec pad hd hpad hp hts hfirst hprev hdelta hrem hback
      have ht : t < 2 ^ 63 := hts t List.mem_cons_self
      by_cases hclass : 1024 ≤ ((t : Int) - p - d).natAbs
      · rw [dodStream_cons, i64_delta hp ht, List.append_assoc] at hrem
        rw [List.length_cons, TimestampDecompressor.nextN, List.map_cons] at hback
        exact Or.inr (Or.inl
          (accidental_of_next hd hp ht hclass hfirst hprev hpad hrem (List.cons.inj hback).1))
      · rw [not_le] at hclass
        rw [dodStream_step hp ht hclass, List.append_assoc] at hrem
        obtain ⟨input, hnext, hrest⟩ :=
          TimestampDecompressor.next_dodCode hfirst hclass hrem
        rw [hprev, hdelta] at hnext
        rw [List.length_cons, TimestampDecompressor.nextN, hnext, List.map_cons] at hback
        obtain ⟨hhead, htail⟩ := List.cons.inj hback
        have hvalue : valueRead d (t - p - d) = t - p :=
          (move_eq_iff hp ht (valueRead_range hd hclass)).mp (Option.some.inj hhead)
        have hstep : StepFaithful d (t - p) := (valueRead_eq_iff hd.1 hclass).mp hvalue
        have hmove := Option.some.inj hhead
        rw [hvalue] at htail hmove
        rw [hmove] at htail
        rcases ih _ t _ pad (hstep.range hd).1 hpad ht
            (fun t' h' => hts t' (List.mem_cons_of_mem _ h')) rfl rfl rfl hrest htail
          with hrestFaithful | hrestAccident
        · exact Or.inl ⟨hstep, hrestFaithful⟩
        · exact Or.inr (Or.inr ⟨hstep, hrestAccident⟩)

/-- A steady series reaches no accident. -/
private theorem not_reachesAccidentFrom :
    ∀ (ts : List Nat) (d : Int) (p : Nat), -16 ≤ d ∧ d ≤ 1023 → SteadyFrom d p ts →
      ¬ ReachesAccidentFrom d p ts := by
  intro ts
  induction ts with
  | nil => intro d p _ _ h; exact h
  | cons t ts ih =>
      rintro d p hd ⟨hstep, hsteady⟩ (haccident | ⟨hfaithful, hlater⟩)
      · exact not_accidental hd hstep _ haccident
      · exact ih _ t (hfaithful.range hd).1 hsteady hlater

/-- The first call of `next` returns the first timestamp and leaves the
decompressor where the later words start. -/
private theorem roundTrip_cons {t : Nat} (ts : List Nat) (ht : t < 2 ^ 63) :
    ∃ (dec : TimestampDecompressor) (pad : List Bool), pad.length < 8 ∧ dec.first = false ∧
      dec.prevTimestamp = t ∧ dec.prevDelta = 0 ∧
      dec.input.remaining = dodStream 0 t ts ++ pad ∧
      (TimestampRoundTrip (t :: ts) ↔ dec.nextN ts.length = ts.map some) := by
  obtain ⟨pad, hpad, hstream⟩ := GorillaTimestampCompressor.stream_compressTimestamps t ts
  obtain ⟨input, hnext, hrest⟩ := TimestampDecompressor.next_first
    (d := .new (compressTimestamps (t :: ts))) rfl (by omega) hstream
  refine ⟨⟨input, t, 0, false⟩, _, by rwa [List.length_replicate], rfl, rfl, rfl, hrest, ?_⟩
  rw [TimestampRoundTrip, List.length_cons, TimestampDecompressor.nextN, hnext, List.map_cons,
    List.cons_eq_cons]
  exact and_iff_right rfl

/-- **The timestamp codec round trip.**  A series of timestamps below `2 ^ 63`
comes back whenever it is faithful; unless its first unfaithful step is an
accidental one, it comes back only then, and the steps of a steady series are
never accidental. -/
theorem timestampRoundTrip_iff_faithful (ts : List Nat) (hts : ∀ t ∈ ts, t < 2 ^ 63) :
    (Faithful ts → TimestampRoundTrip ts) ∧
      (¬ ReachesAccident ts → (TimestampRoundTrip ts ↔ Faithful ts)) ∧
      (Steady ts → ¬ ReachesAccident ts) := by
  cases ts with
  | nil => exact ⟨fun _ => rfl, fun _ => ⟨fun _ => trivial, fun _ => rfl⟩, fun _ h => h⟩
  | cons t ts =>
      have ht : t < 2 ^ 63 := hts t List.mem_cons_self
      have hrest : ∀ t' ∈ ts, t' < 2 ^ 63 := fun t' h' => hts t' (List.mem_cons_of_mem _ h')
      obtain ⟨dec, pad, hpad, hfirst, hprev, hdelta, hrem, hiff⟩ := roundTrip_cons ts ht
      have sufficient : Faithful (t :: ts) → TimestampRoundTrip (t :: ts) := fun hfaithful =>
        hiff.mpr (nextN_of_faithful ts 0 t dec pad (by omega) ht hrest hfirst hprev hdelta hrem
          hfaithful)
      refine ⟨sufficient, fun haccident => ⟨fun hback => ?_, sufficient⟩,
        not_reachesAccidentFrom ts 0 t (by omega)⟩
      rcases faithful_of_nextN ts 0 t dec pad (by omega) hpad ht hrest hfirst hprev hdelta hrem
          (hiff.mp hback) with h | h
      · exact h
      · exact absurd h haccident

/-- The theorem at a series with a constant gap of five. -/
theorem timestampRoundTrip_constantGap : TimestampRoundTrip [1000, 1005, 1010] := by
  refine (timestampRoundTrip_iff_faithful [1000, 1005, 1010] (by decide)).1 ?_
  show FaithfulFrom 0 1000 [1005, 1010]
  refine ⟨?_, ?_, trivial⟩
  · exact Or.inr (Or.inl (by decide))
  · exact Or.inl rfl

/-- **Not every series comes back**: gaps of five and seven are read as five and
two, so the third timestamp comes back as 1007. -/
theorem not_forall_timestampRoundTrip :
    ¬ ∀ ts : List Nat, (∀ t ∈ ts, t < 2 ^ 63) → TimestampRoundTrip ts := by
  intro h
  have h' := h [1000, 1005, 1012] (by decide)
  revert h'
  decide +kernel

end StopTrading.TickDb
