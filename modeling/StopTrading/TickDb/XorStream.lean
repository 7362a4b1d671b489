import StopTrading.TickDb.XorSeries
import StopTrading.Library.ByteFile
import StopTrading.Library.Transition

/-!
# The streaming compressor

`StreamingXorCompressor` writes the first value and then, for every xor of neighbours, the
number of its significant bits and the bytes of these bits.  Where they stand in the word is not
written, so a xor can be told from others only if it is zero or reaches from the first bit of
the word to the last (`forall_encodeXor_eq_iff`).

A value that does not fit into the buffer is refused after the two counts of the compressor
have taken it in.

### What is load-bearing

The length of a code is known from its first byte, so that a stream splits into codes in one way
(`selfDelimiting_encodeXor`), and two series of one length can be compared xor by xor.  A code is
the significant bits without their place, which is why a word that can be moved has a twin
(`encodeXor_eq_of_shift`).

That a refused value leaves a trace is a separate matter.  `addValue_eq` shows both at once: the
counts take the value in before the room is looked at.

### Design decisions

`Determined` compares with series that are stored completely.  A series that is not is refused at
some value, and the second half of the result is about what that leaves behind.
-/

namespace StopTrading.TickDb

open BitString ByteFile MachineInt Transition

/-- `StreamingXorCompressor`. -/
structure StreamingXorCompressor where
  buffer : List UInt8
  writePos : Nat
  prevValue : BitVec 64
  first : Bool
  leadingZeros : Nat
  significantBits : Nat
  deriving DecidableEq

namespace StreamingXorCompressor

/-- The length of `buffer`. -/
def capacity : Nat := 65536

/-- `new`. -/
def new : StreamingXorCompressor := ⟨List.replicate capacity 0, 0, 0, true, 64, 0⟩

/-- The bytes that are stored for the significant bits of a xor. -/
def payload (shifted : BitVec 64) (sigBits : Nat) : List UInt8 :=
  (List.range ((sigBits + 7) / 8)).map fun i => UInt8.ofNat (shifted >>> (i * 8)).toNat

/-- `add_value`: whether the value was stored, and the compressor after it. -/
def addValue (c : StreamingXorCompressor) (curr : BitVec 64) : Bool × StreamingXorCompressor :=
  if c.first then
    if c.buffer.length < c.writePos + 8 then (false, c)
    else
      (true, { c with
        buffer := splice c.buffer c.writePos (toLE 8 curr.toNat)
        writePos := c.writePos + 8
        prevValue := curr
        first := false })
  else
    let xor := c.prevValue ^^^ curr
    if xor = 0 then
      if c.buffer.length < c.writePos + 1 then (false, c)
      else
        (true, { c with
          buffer := splice c.buffer c.writePos [0]
          writePos := c.writePos + 1
          prevValue := curr })
    else
      let leading := MachineInt.leadingZeros xor.toNat
      let trailing := trailingZeros xor.toNat
      let sigBits := 64 - leading - trailing
      let c := { c with
        leadingZeros := min c.leadingZeros leading
        significantBits := max c.significantBits sigBits }
      let requiredSpace := 1 + (sigBits + 7) / 8
      if c.buffer.length < c.writePos + requiredSpace then (false, c)
      else
        let shifted := xor >>> trailing
        (true, { c with
          buffer := splice c.buffer c.writePos (UInt8.ofNat sigBits :: payload shifted sigBits)
          writePos := c.writePos + requiredSpace
          prevValue := curr })

/-- `get_data`. -/
def getData (c : StreamingXorCompressor) : List UInt8 := c.buffer.take c.writePos

/-! ## The code of a xor -/

/-- What is stored for a xor. -/
def encodeXor (d : BitVec 64) : List UInt8 :=
  if d = 0 then [0]
  else
    let sigBits := TickDb.significantBits d.toNat
    UInt8.ofNat sigBits :: payload (d >>> trailingZeros d.toNat) sigBits

/-- The bytes of the significant bits, the least first. -/
theorem payload_eq (shifted : BitVec 64) (sigBits : Nat) :
    payload shifted sigBits = toLE ((sigBits + 7) / 8) shifted.toNat := by
  rw [payload, toLE_eq_map]
  refine List.map_congr_left fun i _ => ?_
  rw [BitVec.toNat_ushiftRight, Nat.shiftRight_eq_div_pow, Nat.mul_comm, pow_mul]
  rfl

/-- The code of a word that is not zero. -/
theorem encodeXor_of_ne {d : BitVec 64} (hne : d ≠ 0) :
    encodeXor d = UInt8.ofNat (TickDb.significantBits d.toNat) ::
      toLE ((TickDb.significantBits d.toNat + 7) / 8) (d.toNat >>> trailingZeros d.toNat) := by
  rw [encodeXor, if_neg hne]
  simp only [payload_eq, BitVec.toNat_ushiftRight]

/-- A code is a byte and as many as the significant bits take. -/
theorem length_encodeXor {d : BitVec 64} (hne : d ≠ 0) :
    (encodeXor d).length = 1 + (TickDb.significantBits d.toNat + 7) / 8 := by
  rw [encodeXor_of_ne hne, List.length_cons, length_toLE, Nat.add_comm]

/-- **The fields of a code.**  Streams that start with the codes of two words that are not zero
agree in the significant bits. -/
theorem encodeXor_append_inj {d e : BitVec 64} {r r' : List UInt8} (hd : d ≠ 0) (he : e ≠ 0)
    (h : encodeXor d ++ r = encodeXor e ++ r') :
    TickDb.significantBits d.toNat = TickDb.significantBits e.toNat ∧
      d.toNat >>> trailingZeros d.toNat = e.toNat >>> trailingZeros e.toNat ∧ r = r' := by
  have hdne : d.toNat ≠ 0 := fun h0 => hd (BitVec.eq_of_toNat_eq h0)
  have hene : e.toNat ≠ 0 := fun h0 => he (BitVec.eq_of_toNat_eq h0)
  obtain ⟨hdsum, -, hdlt⟩ := significantBits_spec hdne d.isLt
  obtain ⟨hesum, -, helt⟩ := significantBits_spec hene e.isLt
  rw [encodeXor_of_ne hd, encodeXor_of_ne he, List.cons_append, List.cons_append] at h
  obtain ⟨hcount, hrest⟩ := List.cons.inj h
  have hsig : TickDb.significantBits d.toNat = TickDb.significantBits e.toNat := by
    have := congrArg UInt8.toNat hcount
    rw [UInt8.toNat_ofNat', UInt8.toNat_ofNat'] at this
    omega
  rw [hsig] at hrest hdlt
  obtain ⟨hbytes, hpad⟩ := List.append_inj hrest (by rw [length_toLE, length_toLE])
  refine ⟨hsig, ?_, hpad⟩
  have hwide : 2 ^ TickDb.significantBits e.toNat ≤
      256 ^ ((TickDb.significantBits e.toNat + 7) / 8) := by
    rw [show (256 : Nat) = 2 ^ 8 from rfl, ← pow_mul]
    exact Nat.pow_le_pow_right (by decide) (by omega)
  have hvalue := congrArg ofLE hbytes
  rwa [ofLE_toLE_of_lt (lt_of_lt_of_le hdlt hwide),
    ofLE_toLE_of_lt (lt_of_lt_of_le helt hwide)] at hvalue

/-- The code of a word that is not zero starts with its number of significant bits, which is
not zero. -/
theorem encodeXor_zero_append_ne {e : BitVec 64} (he : e ≠ 0) (r r' : List UInt8) :
    encodeXor 0 ++ r ≠ encodeXor e ++ r' := by
  have hene : e.toNat ≠ 0 := fun h0 => he (BitVec.eq_of_toNat_eq h0)
  obtain ⟨hsum, hpos, -⟩ := significantBits_spec hene e.isLt
  rw [encodeXor_of_ne he, List.cons_append]
  intro h
  have := congrArg UInt8.toNat (List.cons.inj h).1
  rw [UInt8.toNat_ofNat'] at this
  change 0 = _ at this
  omega

/-- **Codes delimit themselves**: their first byte gives their length. -/
theorem selfDelimiting_encodeXor : SelfDelimiting encodeXor := by
  intro d e r r' h
  by_cases hd : d = 0 <;> by_cases he : e = 0
  · rw [hd, he]
  · subst hd
    exact absurd h (encodeXor_zero_append_ne he r r')
  · subst he
    exact absurd h.symm (encodeXor_zero_append_ne hd r' r)
  · rw [(encodeXor_append_inj hd he h).2.2] at h
    exact List.append_cancel_right h

/-- **A word moved to another place** has the same code. -/
theorem encodeXor_eq_of_shift {d e : BitVec 64} {m t t' : Nat} (hodd : m % 2 = 1)
    (hd : d.toNat = m * 2 ^ t) (he : e.toNat = m * 2 ^ t') : encodeXor e = encodeXor d := by
  have hm : m ≠ 0 := by omega
  have hcode : ∀ {u : BitVec 64} {k : Nat}, u.toNat = m * 2 ^ k →
      encodeXor u = UInt8.ofNat (m.log2 + 1) :: toLE ((m.log2 + 1 + 7) / 8) m := by
    intro u k hu
    have hne : u ≠ 0 := by
      rintro rfl
      exact Nat.mul_ne_zero hm (Nat.two_pow_pos k).ne' hu.symm
    obtain ⟨htrail, hsig, -⟩ := counts_odd_mul hodd (Nat.log2_self_le hm) Nat.lt_log2_self
      (hu ▸ u.isLt)
    rw [encodeXor_of_ne hne, hu, htrail, hsig, Nat.shiftRight_eq_div_pow,
      Nat.mul_div_cancel m (Nat.two_pow_pos k)]
  rw [hcode hd, hcode he]

/-- **A code belongs to one word only** if and only if the word is zero or has no zeros before
or after its significant bits. -/
theorem forall_encodeXor_eq_iff {d : BitVec 64} :
    (∀ e, encodeXor e = encodeXor d → e = d) ↔
      d = 0 ∨ TickDb.significantBits d.toNat = 64 := by
  constructor
  · intro hunique
    by_contra hshort
    rw [not_or] at hshort
    obtain ⟨hne, hsig⟩ := hshort
    have hdne : d.toNat ≠ 0 := fun h0 => hne (BitVec.eq_of_toNat_eq h0)
    obtain ⟨hsum, -, -⟩ := significantBits_spec hdne d.isLt
    obtain ⟨m, hm, hodd, -, hupper⟩ := exists_odd_mul hdne d.isLt
    -- there is room above or below
    obtain ⟨t', ht', hfits⟩ : ∃ t', t' ≠ trailingZeros d.toNat ∧
        TickDb.significantBits d.toNat + t' ≤ 64 := by
      rcases Nat.eq_zero_or_pos (trailingZeros d.toNat) with hzero | hpos
      · exact ⟨1, by omega, by omega⟩
      · exact ⟨trailingZeros d.toNat - 1, by omega, by omega⟩
    have hlt : m * 2 ^ t' < 2 ^ 64 := by
      calc m * 2 ^ t' < 2 ^ TickDb.significantBits d.toNat * 2 ^ t' :=
            Nat.mul_lt_mul_of_pos_right hupper (Nat.two_pow_pos t')
        _ = 2 ^ (TickDb.significantBits d.toNat + t') := (pow_add _ _ _).symm
        _ ≤ 2 ^ 64 := Nat.pow_le_pow_right (by decide) hfits
    have he : (BitVec.ofNat 64 (m * 2 ^ t')).toNat = m * 2 ^ t' := by
      rw [BitVec.toNat_ofNat, Nat.mod_eq_of_lt hlt]
    have heq := congrArg BitVec.toNat (hunique _ (encodeXor_eq_of_shift hodd hm he))
    have hplace := Nat.eq_of_mul_eq_mul_left (by omega) (he.symm.trans (heq.trans hm))
    exact ht' (Nat.pow_right_injective le_rfl hplace)
  · rintro (rfl | hsig) e he
    · by_contra hne
      exact encodeXor_zero_append_ne hne [] [] (by rw [he])
    · have hdne : d.toNat ≠ 0 := ne_zero_of_significantBits (by omega)
      have hd : d ≠ 0 := fun h0 => hdne (congrArg BitVec.toNat h0)
      have hene : e ≠ 0 := by
        rintro rfl
        exact encodeXor_zero_append_ne hd [] [] (by rw [he])
      have hempty : encodeXor e ++ [] = encodeXor d ++ [] := by rw [he]
      obtain ⟨hcount, hvalue, -⟩ := encodeXor_append_inj hene hd hempty
      have hdsum := (significantBits_spec hdne d.isLt).1
      have hesum := (significantBits_spec (fun h0 => hene (BitVec.eq_of_toNat_eq h0)) e.isLt).1
      rw [show trailingZeros e.toNat = 0 by omega, show trailingZeros d.toNat = 0 by omega,
        Nat.shiftRight_zero, Nat.shiftRight_zero] at hvalue
      exact BitVec.eq_of_toNat_eq hvalue

/-! ## One call -/

/-- What is stored for a value. -/
def encode (c : StreamingXorCompressor) (curr : BitVec 64) : List UInt8 :=
  if c.first then toLE 8 curr.toNat else encodeXor (curr ^^^ c.prevValue)

/-- The two counts take a value in, before it is known whether it fits. -/
def noted (c : StreamingXorCompressor) (curr : BitVec 64) : StreamingXorCompressor :=
  if c.first ∨ curr ^^^ c.prevValue = 0 then c
  else
    { c with
      leadingZeros := min c.leadingZeros (MachineInt.leadingZeros (curr ^^^ c.prevValue).toNat)
      significantBits :=
        max c.significantBits (TickDb.significantBits (curr ^^^ c.prevValue).toNat) }

/-- There is room for a value. -/
def HasRoom (c : StreamingXorCompressor) (curr : BitVec 64) : Prop :=
  c.writePos + (c.encode curr).length ≤ c.buffer.length

instance (c : StreamingXorCompressor) (curr : BitVec 64) : Decidable (c.HasRoom curr) :=
  inferInstanceAs (Decidable (_ ≤ _))

/-- The compressor with what is stored for a value in its buffer. -/
def stored (c : StreamingXorCompressor) (curr : BitVec 64) : StreamingXorCompressor :=
  { c.noted curr with
    buffer := splice c.buffer c.writePos (c.encode curr)
    writePos := c.writePos + (c.encode curr).length
    prevValue := curr
    first := false }

/-- **One call**: what is stored for the value goes into the buffer, if there is room. -/
theorem addValue_eq (c : StreamingXorCompressor) (curr : BitVec 64) :
    c.addValue curr = if c.HasRoom curr then (true, c.stored curr) else (false, c.noted curr) := by
  obtain ⟨buffer, writePos, prevValue, first, leading, significant⟩ := c
  cases first with
  | true =>
      simp only [addValue, HasRoom, stored, encode, noted, length_toLE, if_true, true_or]
      split_ifs with hfull hroom hroom
      · omega
      · rfl
      · rfl
      · omega
  | false =>
      simp only [addValue, HasRoom, stored, encode, noted, BitVec.xor_comm prevValue curr,
        Bool.false_eq_true, if_false, false_or]
      by_cases hzero : curr ^^^ prevValue = 0
      · simp only [hzero, if_true, encodeXor, List.length_singleton]
        split_ifs with hfull hroom hroom
        · omega
        · rfl
        · rfl
        · omega
      · have hlength := length_encodeXor hzero
        have hcode : encodeXor (curr ^^^ prevValue) =
            UInt8.ofNat (TickDb.significantBits (curr ^^^ prevValue).toNat) ::
              payload ((curr ^^^ prevValue) >>> trailingZeros (curr ^^^ prevValue).toNat)
                (TickDb.significantBits (curr ^^^ prevValue).toNat) := by
          rw [encodeXor, if_neg hzero]
        have hsig : 64 - MachineInt.leadingZeros (curr ^^^ prevValue).toNat -
            trailingZeros (curr ^^^ prevValue).toNat =
              TickDb.significantBits (curr ^^^ prevValue).toNat := rfl
        simp only [hzero, if_false, hlength, hsig, ← hcode]
        split_ifs with hfull hroom hroom
        · omega
        · rfl
        · rfl
        · omega

/-! ## Runs -/

/-- A call that stores its value. -/
def acceptedStep (c : StreamingXorCompressor) (curr : BitVec 64) : Option StreamingXorCompressor :=
  if (c.addValue curr).1 then some (c.addValue curr).2 else none

/-- Any call. -/
def step (c : StreamingXorCompressor) (curr : BitVec 64) : Option StreamingXorCompressor :=
  some (c.addValue curr).2

/-- What is stored for a series. -/
def encodeSeries : List (BitVec 64) → List UInt8
  | [] => []
  | x :: xs => toLE 8 x.toNat ++ (xors x xs).flatMap encodeXor

/-- **The buffer holds exactly `bytes`.** -/
structure Holds (c : StreamingXorCompressor) (bytes : List UInt8) : Prop where
  length : c.buffer.length = capacity
  writePos : c.writePos = bytes.length
  /-- There are no more bytes than the buffer has, -/
  fits : bytes.length ≤ capacity
  /-- and `get_data` returns them. -/
  data : c.getData = bytes

/-- A new compressor holds nothing. -/
theorem holds_new : new.Holds [] :=
  ⟨List.length_replicate, rfl, Nat.zero_le _, rfl⟩

/-- A value that is stored follows the others. -/
theorem Holds.stored {c : StreamingXorCompressor} {bytes : List UInt8} (h : c.Holds bytes)
    {curr : BitVec 64} (hroom : c.HasRoom curr) :
    (c.stored curr).Holds (bytes ++ c.encode curr) := by
  have hroom' : c.writePos + (c.encode curr).length ≤ c.buffer.length := hroom
  refine ⟨(length_splice hroom').trans h.length, ?_, ?_, ?_⟩
  · rw [List.length_append, ← h.writePos]
    rfl
  · rw [List.length_append, ← h.writePos, ← h.length]
    exact hroom'
  · have hpos : c.writePos ≤ c.buffer.length := by omega
    have htake : (splice c.buffer c.writePos (c.encode curr)).take
        (c.writePos + (c.encode curr).length) = c.getData ++ c.encode curr := take_splice hpos
    rw [← h.data]
    exact htake

/-- There is room if the bytes of the value still fit. -/
theorem Holds.hasRoom_iff {c : StreamingXorCompressor} {bytes : List UInt8} (h : c.Holds bytes)
    {curr : BitVec 64} : c.HasRoom curr ↔ (bytes ++ c.encode curr).length ≤ capacity := by
  rw [HasRoom, h.writePos, h.length, List.length_append]

/-- A call that stores its value needs room for it. -/
theorem acceptedStep_eq (c : StreamingXorCompressor) (curr : BitVec 64) :
    acceptedStep c curr = if c.HasRoom curr then some (c.stored curr) else none := by
  rw [acceptedStep, addValue_eq]
  by_cases hroom : c.HasRoom curr
  · simp only [if_pos hroom, if_true]
  · simp only [if_neg hroom, Bool.false_eq_true, if_false]

/-- **A run that stores all values**: what it stores is in the buffer, and it is possible if
all of that has room. -/
theorem run_acceptedStep (xs : List (BitVec 64)) :
    ∀ {c : StreamingXorCompressor} {bytes : List UInt8}, c.first = false → c.Holds bytes →
      ((bytes ++ (xors c.prevValue xs).flatMap encodeXor).length ≤ capacity →
        ∃ c', run acceptedStep c xs = some c') ∧
      ∀ c', run acceptedStep c xs = some c' →
        c'.Holds (bytes ++ (xors c.prevValue xs).flatMap encodeXor) := by
  induction xs with
  | nil =>
      intro c bytes _ h
      refine ⟨fun _ => ⟨c, rfl⟩, fun c' hrun => ?_⟩
      obtain rfl : c = c' := Option.some.inj hrun
      rwa [xors, List.flatMap_nil, List.append_nil]
  | cons x xs ih =>
      intro c bytes hfirst h
      have hencode : c.encode x = encodeXor (x ^^^ c.prevValue) := by
        rw [encode, hfirst, if_neg (by decide)]
      rw [xors, List.flatMap_cons, ← List.append_assoc, ← hencode, run, acceptedStep_eq]
      by_cases hroom : c.HasRoom x
      · rw [if_pos hroom, Option.bind_some]
        exact ih rfl (h.stored hroom)
      · rw [if_neg hroom, Option.bind_none]
        constructor
        · intro hfits
          refine absurd (h.hasRoom_iff.mpr ?_) hroom
          rw [List.length_append] at hfits
          omega
        · intro c' hrun
          cases hrun

/-- **The data of a series**, if all of it was stored. -/
theorem run_new (xs : List (BitVec 64)) :
    ((encodeSeries xs).length ≤ capacity ↔ ∃ c, run acceptedStep new xs = some c) ∧
      ∀ c, run acceptedStep new xs = some c → c.Holds (encodeSeries xs) := by
  suffices h : ((encodeSeries xs).length ≤ capacity → ∃ c, run acceptedStep new xs = some c) ∧
      ∀ c, run acceptedStep new xs = some c → c.Holds (encodeSeries xs) from
    ⟨⟨h.1, fun ⟨c, hrun⟩ => (h.2 c hrun).fits⟩, h.2⟩
  cases xs with
  | nil =>
      refine ⟨fun _ => ⟨new, rfl⟩, fun c hrun => ?_⟩
      obtain rfl : new = c := Option.some.inj hrun
      exact holds_new
  | cons x xs =>
      have hroom : new.HasRoom x := by
        rw [holds_new.hasRoom_iff, List.nil_append, encode, if_pos (show new.first = true from rfl),
          length_toLE]
        decide
      rw [run, acceptedStep_eq, if_pos hroom, Option.bind_some]
      exact run_acceptedStep xs rfl (holds_new.stored hroom)

/-- **Series of the same length with the same bytes** have the same first value and the same
codes. -/
theorem encodeSeries_eq_iff {x y : BitVec 64} {xs ys : List (BitVec 64)}
    (hlength : ys.length = xs.length) :
    encodeSeries (y :: ys) = encodeSeries (x :: xs) ↔
      y = x ∧ (xors y ys).map encodeXor = (xors x xs).map encodeXor := by
  rw [encodeSeries, encodeSeries]
  constructor
  · intro h
    obtain ⟨hfirst, hrest⟩ := List.append_inj h (by rw [length_toLE, length_toLE])
    have hvalue := congrArg ofLE hfirst
    rw [ofLE_toLE_of_lt y.isLt, ofLE_toLE_of_lt x.isLt] at hvalue
    refine ⟨BitVec.eq_of_toNat_eq hvalue, ?_⟩
    have hpad : (xors y ys).flatMap encodeXor ++ [] = (xors x xs).flatMap encodeXor ++ [] := by
      rw [hrest]
    exact (selfDelimiting_encodeXor.flatMap_inj (by rw [length_xors, length_xors, hlength]) hpad).1
  · rintro ⟨rfl, hcodes⟩
    rw [List.flatMap_def, List.flatMap_def, hcodes]

/-! ## What is kept -/

/-- **A series is the only one with its data**, among those of its length that are stored. -/
def Determined (xs : List (BitVec 64)) : Prop :=
  ∀ c, run acceptedStep new xs = some c → ∀ ys c', ys.length = xs.length →
    run acceptedStep new ys = some c' → c'.getData = c.getData → ys = xs

/-- A call that refuses its value leaves everything as it was. -/
def Atomic (c : StreamingXorCompressor) (curr : BitVec 64) (c' : StreamingXorCompressor) : Prop :=
  (c.addValue curr).1 = false → c' = c

/-- Every xor of neighbours is zero, or has no zeros before or after its significant bits. -/
def WholeWords : List (BitVec 64) → Prop
  | [] => True
  | x :: xs => ∀ d ∈ xors x xs, d = 0 ∨ TickDb.significantBits d.toNat = 64

/-- There is room for a value, or the two counts have nothing to take in. -/
def Covered (c : StreamingXorCompressor) (curr : BitVec 64) : Prop :=
  c.HasRoom curr ∨ c.first ∨ curr ^^^ c.prevValue = 0 ∨
    (c.leadingZeros ≤ MachineInt.leadingZeros (curr ^^^ c.prevValue).toNat ∧
      TickDb.significantBits (curr ^^^ c.prevValue).toNat ≤ c.significantBits)

/-- **Bytes determine a series** if and only if its xors are whole words, -/
theorem encodeSeries_determined_iff (xs : List (BitVec 64)) :
    (∀ ys, ys.length = xs.length → encodeSeries ys = encodeSeries xs → ys = xs) ↔
      WholeWords xs := by
  cases xs with
  | nil => exact ⟨fun _ => trivial, fun _ ys hlength _ => List.length_eq_zero_iff.mp hlength⟩
  | cons x xs =>
      have hwords : WholeWords (x :: xs) ↔
          ∀ ys, (xors x ys).map encodeXor = (xors x xs).map encodeXor → ys = xs := by
        rw [forall_xors_iff (P := fun es => es.map encodeXor = (xors x xs).map encodeXor),
          forall_map_eq_iff]
        exact forall₂_congr fun d _ => forall_encodeXor_eq_iff.symm
      rw [hwords]
      constructor
      · intro hunique ys hys
        have hlength : ys.length = xs.length := by
          have := congrArg List.length hys
          rwa [List.length_map, List.length_map, length_xors, length_xors] at this
        exact (List.cons.inj (hunique (x :: ys) (congrArg Nat.succ hlength)
          ((encodeSeries_eq_iff hlength).mpr ⟨rfl, hys⟩))).2
      · intro hunique ys hlength hsame
        cases ys with
        | nil => exact absurd hlength (Nat.succ_ne_zero _).symm
        | cons y ys =>
            obtain ⟨rfl, hcodes⟩ := (encodeSeries_eq_iff (Nat.succ.inj hlength)).mp hsame
            rw [hunique ys hcodes]

/-- which matters if the bytes fit. -/
theorem determined_iff (xs : List (BitVec 64)) :
    Determined xs ↔ ((encodeSeries xs).length ≤ capacity → WholeWords xs) := by
  rw [← encodeSeries_determined_iff, (run_new xs).1]
  constructor
  · rintro hunique ⟨c, hrun⟩ ys hlength hsame
    obtain ⟨c', hrun'⟩ := (run_new ys).1.mp (hsame ▸ ((run_new xs).2 c hrun).fits)
    refine hunique c hrun ys c' hlength hrun' ?_
    rw [((run_new ys).2 c' hrun').data, ((run_new xs).2 c hrun).data, hsame]
  · intro hunique c hrun ys c' hlength hrun' hsame
    rw [((run_new ys).2 c' hrun').data, ((run_new xs).2 c hrun).data] at hsame
    exact hunique ⟨c, hrun⟩ ys hlength hsame

/-- **A refused value leaves no trace** if and only if the counts cover it. -/
theorem atomic_iff (c : StreamingXorCompressor) (curr : BitVec 64) :
    Atomic c curr (c.addValue curr).2 ↔ c.Covered curr := by
  rw [Atomic, Covered, addValue_eq]
  by_cases hroom : c.HasRoom curr
  · rw [if_pos hroom]
    exact iff_of_true (fun h => nomatch h) (.inl hroom)
  · rw [if_neg hroom, or_iff_right hroom, noted, forall_prop_of_true rfl]
    by_cases hnothing : c.first ∨ curr ^^^ c.prevValue = 0
    · rw [if_pos hnothing]
      exact iff_of_true rfl (or_assoc.mp (.inl hnothing))
    · rw [if_neg hnothing, ← or_assoc, or_iff_right hnothing]
      obtain ⟨buffer, writePos, prevValue, first, leading, significant⟩ := c
      simp only [StreamingXorCompressor.mk.injEq, true_and]
      omega

/-- **The compressor keeps a series and refuses values without a trace** if and only if, where
all values fit, their xors are whole words, and where one does not fit, the counts cover it. -/
theorem determined_and_atomic_iff (xs : List (BitVec 64)) :
    (Determined xs ∧ AllSteps step Atomic new xs) ↔
      ((encodeSeries xs).length ≤ capacity → WholeWords xs) ∧
        AllSteps step (fun c curr _ => c.Covered curr) new xs := by
  rw [determined_iff]
  refine and_congr_right fun _ => allSteps_congr (fun c curr c' hstep => ?_) xs new
  obtain rfl : (c.addValue curr).2 = c' := Option.some.inj hstep
  exact atomic_iff c curr

/-- **Two series with the same data**: 100.0 and 101.0, and 100.0 and 102.0. -/
theorem not_forall_determined_and_atomic :
    ¬ ∀ xs : List (BitVec 64), Determined xs ∧ AllSteps step Atomic new xs := by
  intro hall
  have hfits : (encodeSeries [0x4059000000000000, 0x4059400000000000]).length ≤ capacity := by
    decide +kernel
  have hwords := (determined_iff _).mp (hall [0x4059000000000000, 0x4059400000000000]).1 hfits
  have hcode : TickDb.significantBits ((0x4059400000000000 : BitVec 64) ^^^
      0x4059000000000000).toNat = 1 := by
    decide +kernel
  rcases hwords _ List.mem_cons_self with hzero | hwhole
  · exact absurd hzero (by decide)
  · exact absurd (hcode.symm.trans hwhole) (by decide)

end StreamingXorCompressor

end StopTrading.TickDb
