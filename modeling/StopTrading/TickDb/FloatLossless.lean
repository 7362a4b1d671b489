import StopTrading.TickDb.XorSeries
import StopTrading.TickDb.TimestampCodec

/-!
# When a float series is determined by its bytes

Two series of the same length have the same bytes exactly when they start with
the same value and their xors have the same words
(`compressFloats_eq_iff`).  A xor that covers both halves of the word is the only
one with its word, every other nonzero xor shares it; so a series can be told
from all others of its length exactly when all of its xors cover both halves or
are zero.

`TickCompressor` stores its prices and its sizes in two such streams and nothing
else about them but the number of ticks (`compressTicks_eq`).

### What is load-bearing

A series is its first value and its xors (`compressFloats_eq_iff`), and words that delimit
themselves can be compared one by one.  So a question about two byte strings becomes one about
single xors, which `eq_of_xorWord_eq` and `exists_xorWord_eq` of the codec answer.

### Design decisions

The series that are compared have the same length.  The length is not in the bytes of a stream;
`TickCompressedData` keeps the number of ticks beside it.
-/

namespace StopTrading.TickDb

open BitString MachineInt

/-- Two series of the same length with the same bytes: the same first value and
the same words. -/
theorem compressFloats_eq_iff {x y : BitVec 64} {xs ys : List (BitVec 64)}
    (hlen : ys.length = xs.length) :
    compressFloats (y :: ys) = compressFloats (x :: xs) ↔
      y = x ∧ (xors y ys).map xorWord = (xors x xs).map xorWord := by
  have hx := (GorillaFloatCompressor.holds_compress x xs).stream_align
  have hy := (GorillaFloatCompressor.holds_compress y ys).stream_align
  constructor
  · intro h
    have hbits := congrArg stream h
    rw [compressFloats, compressFloats, GorillaFloatCompressor.finalize,
      GorillaFloatCompressor.finalize, hx, hy, List.append_assoc, List.append_assoc] at hbits
    obtain ⟨hfirst, hrest⟩ := List.append_inj hbits (by simp)
    have hvalue : y = x := by
      have := mod_eq_of_bitsOf_eq hfirst
      rw [Nat.mod_eq_of_lt y.isLt, Nat.mod_eq_of_lt x.isLt] at this
      exact BitVec.eq_of_toNat_eq this
    exact ⟨hvalue, (selfDelimiting_xorWord.flatMap_inj (by simp [hlen]) hrest).1⟩
  · rintro ⟨rfl, hwords⟩
    have hflat : (xors y ys).flatMap xorWord = (xors y xs).flatMap xorWord := by
      rw [List.flatMap_def, List.flatMap_def, hwords]
    apply eq_of_stream_eq
    rw [compressFloats, compressFloats, GorillaFloatCompressor.finalize,
      GorillaFloatCompressor.finalize, hx, hy, hflat]

/-- Every xor along a series covers both halves of the word, or is zero. -/
def DeterminedFrom : BitVec 64 → List (BitVec 64) → Prop
  | _, [] => True
  | p, x :: xs => BothHalves (x ^^^ p) ∧ DeterminedFrom x xs

/-- **The series determined by their bytes.** -/
def Determined : List (BitVec 64) → Prop
  | [] => True
  | x :: xs => DeterminedFrom x xs

/-- Along a series, in terms of the list of its xors. -/
theorem determinedFrom_iff {p : BitVec 64} {xs : List (BitVec 64)} :
    DeterminedFrom p xs ↔ ∀ d ∈ xors p xs, BothHalves d := by
  induction xs generalizing p with
  | nil => exact iff_of_true trivial nofun
  | cons x xs ih => rw [DeterminedFrom, xors, List.forall_mem_cons, ih]

/-- **The words determine the values** if each of them belongs to one xor only. -/
theorem forall_words_eq_iff {p : BitVec 64} {xs : List (BitVec 64)} :
    (∀ ys, (xors p ys).map xorWord = (xors p xs).map xorWord → ys = xs) ↔
      DeterminedFrom p xs := by
  rw [forall_xors_iff (P := fun es => es.map xorWord = (xors p xs).map xorWord),
    forall_map_eq_iff, determinedFrom_iff]
  refine forall₂_congr fun d _ => ⟨fun hunique => ?_, fun hboth e => eq_of_xorWord_eq hboth⟩
  by_contra hboth
  obtain ⟨e, hne, he⟩ := exists_xorWord_eq hboth
  exact hne (hunique e he)

/-- **A float series is determined by its bytes and its length** exactly when
every xor of two neighbours is zero or has set bits in both halves of the
word. -/
theorem compressFloats_injective_iff_determined (xs : List (BitVec 64)) :
    (∀ ys : List (BitVec 64), ys.length = xs.length →
        compressFloats ys = compressFloats xs → ys = xs) ↔ Determined xs := by
  cases xs with
  | nil =>
      refine ⟨fun _ => trivial, fun _ ys hlen _ => ?_⟩
      exact List.length_eq_zero_iff.mp hlen
  | cons x xs =>
      rw [Determined, ← forall_words_eq_iff]
      constructor
      · intro hunique ys hwords
        have hlen : ys.length = xs.length := by
          have hlength := congrArg List.length hwords
          rwa [List.length_map, List.length_map, length_xors, length_xors] at hlength
        have hbytes := (compressFloats_eq_iff hlen).mpr ⟨rfl, hwords⟩
        exact (List.cons.inj (hunique (x :: ys) (congrArg Nat.succ hlen) hbytes)).2
      · intro hunique ys hlen hbytes
        cases ys with
        | nil => exact absurd hlen (Nat.succ_ne_zero _).symm
        | cons y ys =>
            obtain ⟨rfl, hwords⟩ := (compressFloats_eq_iff (Nat.succ.inj hlen)).mp hbytes
            rw [hunique ys hwords]

/-- The prices 100.0, 101.0 share their bytes with 100.0 followed by a price one
ulp-scale step above it: the two xors are one bit, 32 places apart. -/
theorem compressFloats_not_injective :
    ¬ ∀ xs ys : List (BitVec 64), xs.length = ys.length →
      compressFloats xs = compressFloats ys → xs = ys := by
  intro h
  have := h [0x4059000000000000, 0x4059400000000000] [0x4059000000000000, 0x4059000000004000]
    rfl (by decide +kernel)
  revert this
  decide

/-! ## Ticks -/

/-- `TickCompressor`. -/
structure TickCompressor where
  timestampCompressor : GorillaTimestampCompressor
  priceCompressor : GorillaFloatCompressor
  sizeCompressor : GorillaFloatCompressor
  ticksCompressed : Nat
  deriving Repr, DecidableEq

/-- `TickCompressedData`. -/
structure TickCompressedData where
  timestamps : List Byte
  prices : List Byte
  sizes : List Byte
  ticksCount : Nat
  deriving Repr, DecidableEq

/-- A tick record: timestamp, price, size. -/
structure Tick where
  timestamp : Nat
  price : BitVec 64
  size : BitVec 64
  deriving Repr, DecidableEq

namespace TickCompressor

/-- `new`. -/
def new : TickCompressor := ⟨.new, .new, .new, 0⟩

/-- `add_tick`. -/
def addTick (c : TickCompressor) (tick : Tick) : TickCompressor where
  timestampCompressor := c.timestampCompressor.addTimestamp tick.timestamp
  priceCompressor := c.priceCompressor.addValue tick.price
  sizeCompressor := c.sizeCompressor.addValue tick.size
  ticksCompressed := (c.ticksCompressed + 1) % 2 ^ 64

/-- `finalize`. -/
def finalize (c : TickCompressor) : TickCompressedData where
  timestamps := c.timestampCompressor.finalize
  prices := c.priceCompressor.finalize
  sizes := c.sizeCompressor.finalize
  ticksCount := c.ticksCompressed

/-- Adding ticks runs the three compressors side by side. -/
theorem foldl_addTick (ticks : List Tick) (c : TickCompressor) (h : c.ticksCompressed < 2 ^ 64) :
    ticks.foldl addTick c =
      ⟨(ticks.map Tick.timestamp).foldl GorillaTimestampCompressor.addTimestamp
          c.timestampCompressor,
        (ticks.map Tick.price).foldl GorillaFloatCompressor.addValue c.priceCompressor,
        (ticks.map Tick.size).foldl GorillaFloatCompressor.addValue c.sizeCompressor,
        (c.ticksCompressed + ticks.length) % 2 ^ 64⟩ := by
  induction ticks generalizing c with
  | nil =>
      cases c
      simp only [List.map_nil, List.foldl_nil, List.length_nil, Nat.add_zero]
      rw [Nat.mod_eq_of_lt h]
  | cons tick ticks ih =>
      rw [List.foldl_cons, ih _ (Nat.mod_lt _ (by norm_num))]
      simp only [addTick, List.map_cons, List.foldl_cons, List.length_cons, Nat.mod_add_mod]
      congr 2
      omega

end TickCompressor

/-- The stored form of a tick series. -/
def compressTicks (ticks : List Tick) : TickCompressedData :=
  (ticks.foldl TickCompressor.addTick .new).finalize

/-- **What a stored tick series consists of**: the three streams and the number
of ticks. -/
theorem compressTicks_eq (ticks : List Tick) :
    compressTicks ticks =
      ⟨compressTimestamps (ticks.map Tick.timestamp), compressFloats (ticks.map Tick.price),
        compressFloats (ticks.map Tick.size), ticks.length % 2 ^ 64⟩ := by
  rw [compressTicks, TickCompressor.foldl_addTick _ _ (by norm_num [TickCompressor.new])]
  simp [TickCompressor.finalize, TickCompressor.new, compressTimestamps, compressFloats]

end StopTrading.TickDb
