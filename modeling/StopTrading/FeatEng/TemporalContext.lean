import StopTrading.Library.ByteFile

/-!
# The context vector between processes

`TemporalContext::to_bytes` writes a context of the feature extractor as a sequence of
little-endian numbers, the prices of the time scales with their count in front;
`from_bytes` reads it back.  It refuses what is shorter than 40 bytes, but a context has 52
bytes and 8 more for each scale, and a slice that ends outside the buffer aborts.

* `fromBytes_toBytes` — a context is read as it was written, whatever follows it.
* `fromBytes_outcome` — for every string of bytes, whether it is refused, aborts, or is read
  as a context; what is read is what the string begins with.

### Design decisions

There are three outcomes and not two: `from_bytes` answers `None` to a buffer below 40 bytes, and
it panics on one that is longer but ends within what it reads, because a slice of the buffer is
taken without a test.  The result is an `Option` in an `Option`, of which the outer one is the
panic.

Floating-point numbers are carried by their bits, so that a context is read back exactly as it
was written, whether or not they are numbers.

### What is load-bearing

Reading is described from the front: a reader takes a word off the bytes, or so many words, and
leaves the rest (`readWord_of_le`, `readWords_of_le`).  Each of the two has one lemma for enough
bytes and one for too few, and `fromBytes_outcome` only adds up how many are needed.
-/

namespace StopTrading.FeatEng

open ByteFile

/-- `TemporalContext`; floating-point numbers by their bits. -/
structure TemporalContext where
  sequenceLength : BitVec 64
  attentionPrice : BitVec 64
  attentionVolume : BitVec 64
  multiScalePrices : List (BitVec 64)
  priceDecayRate : BitVec 64
  currentPrice : BitVec 64
  avgReturn : BitVec 64
  deriving DecidableEq

/-! ## Words of 64 bits -/

/-- `to_le_bytes`. -/
def wordBytes (x : BitVec 64) : List UInt8 := toLE 8 x.toNat

/-- The next word of a buffer; a slice that ends outside the buffer aborts. -/
def readWord (bytes : List UInt8) : Option (BitVec 64 × List UInt8) :=
  (readLE 8 bytes).map fun r => (BitVec.ofNat 64 r.1, r.2)

/-- So many words. -/
def readWords : Nat → List UInt8 → Option (List (BitVec 64) × List UInt8)
  | 0, bytes => some ([], bytes)
  | n + 1, bytes =>
      (readWord bytes).bind fun r => (readWords n r.2).map fun rs => (r.1 :: rs.1, rs.2)

/-- A word has eight bytes, -/
@[simp] theorem length_wordBytes (x : BitVec 64) : (wordBytes x).length = 8 := length_toLE 8 _

/-- and is read as it was written. -/
@[simp] theorem readWord_wordBytes (x : BitVec 64) (rest : List UInt8) :
    readWord (wordBytes x ++ rest) = some (x, rest) := by
  rw [readWord, wordBytes, readLE_toLE_of_lt (w := 8) x.isLt, Option.map_some, BitVec.ofNat_toNat,
    BitVec.setWidth_eq]

/-- Words have eight bytes each. -/
theorem length_flatMap_wordBytes (xs : List (BitVec 64)) :
    (xs.flatMap wordBytes).length = 8 * xs.length := by
  induction xs with
  | nil => rfl
  | cons x xs ih =>
      rw [List.flatMap_cons, List.length_append, length_wordBytes, ih, List.length_cons]
      omega

/-- From enough bytes a word is read, -/
theorem readWord_of_le {bytes : List UInt8} (h : 8 ≤ bytes.length) :
    ∃ x rest, readWord bytes = some (x, rest) ∧ bytes = wordBytes x ++ rest := by
  obtain ⟨n, rest, hread, hn, rfl⟩ := readLE_of_le h
  have hword : (BitVec.ofNat 64 n).toNat = n := Nat.mod_eq_of_lt hn
  refine ⟨BitVec.ofNat 64 n, rest, ?_, ?_⟩
  · rw [readWord, hread, Option.map_some]
  · rw [wordBytes, hword]

/-- and from fewer none. -/
theorem readWord_of_lt {bytes : List UInt8} (h : bytes.length < 8) : readWord bytes = none := by
  rw [readWord, readLE_of_lt h, Option.map_none]

/-- Words are read as they were written, -/
@[simp] theorem readWords_flatMap (xs : List (BitVec 64)) (rest : List UInt8) :
    readWords xs.length (xs.flatMap wordBytes ++ rest) = some (xs, rest) := by
  induction xs with
  | nil => rfl
  | cons x xs ih =>
      rw [List.flatMap_cons, List.append_assoc, List.length_cons, readWords, readWord_wordBytes,
        Option.bind_some, ih, Option.map_some]

/-- from enough bytes, -/
theorem readWords_of_le {n : Nat} {bytes : List UInt8} (h : 8 * n ≤ bytes.length) :
    ∃ xs rest, readWords n bytes = some (xs, rest) ∧ xs.length = n ∧
      bytes = xs.flatMap wordBytes ++ rest := by
  induction n generalizing bytes with
  | zero => exact ⟨[], bytes, rfl, rfl, rfl⟩
  | succ n ih =>
      obtain ⟨x, rest, hx, rfl⟩ := readWord_of_le (show 8 ≤ bytes.length by omega)
      rw [List.length_append, length_wordBytes] at h
      obtain ⟨xs, rest', hxs, hlength, rfl⟩ := ih (show 8 * n ≤ rest.length by omega)
      refine ⟨x :: xs, rest', ?_, ?_, ?_⟩
      · rw [readWords, hx, Option.bind_some, hxs, Option.map_some]
      · rw [List.length_cons, hlength]
      · rw [List.flatMap_cons, List.append_assoc]

/-- and not from fewer. -/
theorem readWords_of_lt {n : Nat} {bytes : List UInt8} (h : bytes.length < 8 * n) :
    readWords n bytes = none := by
  induction n generalizing bytes with
  | zero => exact absurd h (Nat.not_lt_zero _)
  | succ n ih =>
      by_cases hword : 8 ≤ bytes.length
      · obtain ⟨x, rest, hx, rfl⟩ := readWord_of_le hword
        rw [List.length_append, length_wordBytes] at h
        rw [readWords, hx, Option.bind_some, ih (show rest.length < 8 * n by omega),
          Option.map_none]
      · rw [readWords, readWord_of_lt (Nat.lt_of_not_le hword), Option.bind_none]

/-! ## Contexts -/

namespace TemporalContext

/-- `to_bytes`. -/
def toBytes (c : TemporalContext) : List UInt8 :=
  wordBytes c.sequenceLength ++ (wordBytes c.attentionPrice ++ (wordBytes c.attentionVolume ++
    (toLE 4 c.multiScalePrices.length ++ (c.multiScalePrices.flatMap wordBytes ++
      (wordBytes c.priceDecayRate ++ (wordBytes c.currentPrice ++ wordBytes c.avgReturn))))))

/-- The end of `from_bytes`, behind the prices. -/
def readTail (sequenceLength attentionPrice attentionVolume : BitVec 64)
    (multiScalePrices : List (BitVec 64)) (bytes : List UInt8) : Option TemporalContext := do
  let (priceDecayRate, bytes) ← readWord bytes
  let (currentPrice, bytes) ← readWord bytes
  let (avgReturn, _) ← readWord bytes
  some ⟨sequenceLength, attentionPrice, attentionVolume, multiScalePrices, priceDecayRate,
    currentPrice, avgReturn⟩

/-- `from_bytes`: nothing, or a context; or an abort. -/
def fromBytes (bytes : List UInt8) : Option (Option TemporalContext) :=
  if bytes.length < 40 then some none
  else do
    let (sequenceLength, bytes) ← readWord bytes
    let (attentionPrice, bytes) ← readWord bytes
    let (attentionVolume, bytes) ← readWord bytes
    let (numScales, bytes) ← readLE 4 bytes
    let (multiScalePrices, bytes) ← readWords numScales bytes
    let c ← readTail sequenceLength attentionPrice attentionVolume multiScalePrices bytes
    some (some c)

/-- The count of scales that a string of bytes gives. -/
def numScales (bytes : List UInt8) : Nat := ofLE (window bytes 24 4)

/-- A context has 52 bytes, and eight for each scale. -/
theorem length_toBytes (c : TemporalContext) :
    c.toBytes.length = 52 + 8 * c.multiScalePrices.length := by
  simp only [toBytes, List.length_append, length_wordBytes, length_toLE, length_flatMap_wordBytes]
  omega

/-- **Round trip**, in front of whatever follows. -/
theorem fromBytes_toBytes (c : TemporalContext) (scales : c.multiScalePrices.length < 2 ^ 32)
    (rest : List UInt8) : fromBytes (c.toBytes ++ rest) = some (some c) := by
  have hlong : ¬ (c.toBytes ++ rest).length < 40 := by
    rw [List.length_append, length_toBytes]
    omega
  have hcount := fun tail => readLE_toLE_of_lt (w := 4) scales tail
  rw [fromBytes, if_neg hlong, toBytes]
  simp [hcount, readTail, List.append_assoc]

/-- A context with two scales, and nothing behind it. -/
theorem fromBytes_toBytes_two :
    let c : TemporalContext := ⟨2, 0x3FF0000000000000, 0, [0x4000000000000000, 7], 1, 2, 3⟩
    fromBytes (c.toBytes ++ [255]) = some (some c) := by
  intro c
  exact fromBytes_toBytes c (by decide) [255]

/-- The end of a context is three words, -/
theorem readTail_of_le {bytes : List UInt8} (h : 24 ≤ bytes.length)
    (sequenceLength attentionPrice attentionVolume : BitVec 64)
    (multiScalePrices : List (BitVec 64)) :
    ∃ decay price avg rest,
      readTail sequenceLength attentionPrice attentionVolume multiScalePrices bytes =
        some ⟨sequenceLength, attentionPrice, attentionVolume, multiScalePrices, decay, price,
          avg⟩ ∧
      bytes = wordBytes decay ++ (wordBytes price ++ (wordBytes avg ++ rest)) := by
  obtain ⟨decay, bytes, hdecay, rfl⟩ := readWord_of_le (show 8 ≤ bytes.length by omega)
  rw [List.length_append, length_wordBytes] at h
  obtain ⟨price, bytes, hprice, rfl⟩ := readWord_of_le (show 8 ≤ bytes.length by omega)
  rw [List.length_append, length_wordBytes] at h
  obtain ⟨avg, rest, havg, rfl⟩ := readWord_of_le (show 8 ≤ bytes.length by omega)
  exact ⟨decay, price, avg, rest, by simp [readTail], rfl⟩

/-- or there is an abort. -/
theorem readTail_of_lt {bytes : List UInt8} (h : bytes.length < 24)
    (sequenceLength attentionPrice attentionVolume : BitVec 64)
    (multiScalePrices : List (BitVec 64)) :
    readTail sequenceLength attentionPrice attentionVolume multiScalePrices bytes = none := by
  by_cases h1 : 8 ≤ bytes.length
  · obtain ⟨decay, bytes, hdecay, rfl⟩ := readWord_of_le h1
    rw [List.length_append, length_wordBytes] at h
    by_cases h2 : 8 ≤ bytes.length
    · obtain ⟨price, bytes, hprice, rfl⟩ := readWord_of_le h2
      rw [List.length_append, length_wordBytes] at h
      simp [readTail, readWord_of_lt (show bytes.length < 8 by omega)]
    · simp [readTail, readWord_of_lt (Nat.lt_of_not_le h2)]
  · simp [readTail, readWord_of_lt (Nat.lt_of_not_le h1)]

/-- **What becomes of any string of bytes**: too short a one is refused, one that is shorter
than its count of scales needs aborts, and from any other a context is read that it begins
with. -/
theorem fromBytes_outcome (bytes : List UInt8) :
    (bytes.length < 40 → fromBytes bytes = some none) ∧
    (40 ≤ bytes.length → bytes.length < 52 + 8 * numScales bytes → fromBytes bytes = none) ∧
    (52 + 8 * numScales bytes ≤ bytes.length → ∃ c rest, fromBytes bytes = some (some c) ∧
      c.multiScalePrices.length = numScales bytes ∧ bytes = c.toBytes ++ rest) := by
  by_cases hshort : bytes.length < 40
  · exact ⟨fun _ => if_pos hshort, fun h => by omega, fun h => by omega⟩
  refine ⟨fun h => absurd h hshort, ?_⟩
  unfold fromBytes
  rw [if_neg hshort]
  obtain ⟨sequenceLength, rest₁, -, rfl⟩ := readWord_of_le (show 8 ≤ bytes.length by omega)
  rw [List.length_append, length_wordBytes] at hshort
  obtain ⟨attentionPrice, rest₂, -, rfl⟩ := readWord_of_le (show 8 ≤ rest₁.length by omega)
  rw [List.length_append, length_wordBytes] at hshort
  obtain ⟨attentionVolume, rest₃, -, rfl⟩ := readWord_of_le (show 8 ≤ rest₂.length by omega)
  rw [List.length_append, length_wordBytes] at hshort
  obtain ⟨count, rest₄, hcount, hlt, rfl⟩ := readLE_of_le (show 4 ≤ rest₃.length by omega)
  have hscales : numScales (wordBytes sequenceLength ++ (wordBytes attentionPrice ++
      (wordBytes attentionVolume ++ (toLE 4 count ++ rest₄)))) = count := by
    have htake : (toLE 4 count ++ rest₄).take 4 = toLE 4 count :=
      List.take_left' (length_toLE 4 count)
    simp [numScales, window, List.drop_append, List.drop_eq_nil_of_le, htake,
      ofLE_toLE_of_lt hlt]
  have hlength : (wordBytes sequenceLength ++ (wordBytes attentionPrice ++
      (wordBytes attentionVolume ++ (toLE 4 count ++ rest₄)))).length = 28 + rest₄.length := by
    simp only [List.length_append, length_wordBytes, length_toLE]
    omega
  rw [hscales, hlength]
  -- the first 28 bytes are there; now it depends on the number of scales that they declare
  constructor
  · intro _ hlt
    by_cases hwords : 8 * count ≤ rest₄.length
    · obtain ⟨prices, rest₅, hprices, hcount', rfl⟩ := readWords_of_le hwords
      have htail : rest₅.length < 24 := by
        rw [List.length_append, length_flatMap_wordBytes] at hlt
        omega
      simp [hcount, hprices, readTail_of_lt htail]
    · simp [hcount, readWords_of_lt (Nat.lt_of_not_le hwords)]
  · intro hlong
    obtain ⟨prices, rest₅, hprices, hcount', rfl⟩ :=
      readWords_of_le (show 8 * count ≤ rest₄.length by omega)
    rw [List.length_append, length_flatMap_wordBytes] at hlong
    obtain ⟨decay, price, avg, rest, htail, rfl⟩ :=
      readTail_of_le (show 24 ≤ rest₅.length by omega) sequenceLength attentionPrice
        attentionVolume prices
    refine ⟨⟨sequenceLength, attentionPrice, attentionVolume, prices, decay, price, avg⟩, rest,
      by simp [hcount, hprices, htail], hcount', ?_⟩
    simp only [toBytes, hcount', List.append_assoc]

-- Long enough for the check at the start, but not for a context.
example : fromBytes (List.replicate 40 0) = none := by decide

end TemporalContext

end StopTrading.FeatEng
