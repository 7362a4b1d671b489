import StopTrading.Fix.Codec

/-!
# What decoding keeps of a buffer

The fields that `decode` returns, written out again, are the buffer up to leading zeros
of the tags (`Reproduces`), unless a tag does not fit in 32 bits, of which only the low
ones are kept, or there are more than 64 fields, of which the rest is dropped without an
error.  Both can be read off the buffer (`FitsFields`), and nothing else is lost
(`reproduces_iff_fitsFields`).

### What is load-bearing

Zeros before a tag are lost and change nothing, as tags are numbers; everything else about a
field is kept byte for byte.  So one field is reproduced exactly if its tag keeps its number, and
a tag keeps its number if that fits in 32 bits (`reproduces_cons_iff`).  The rest is the count of
slots: a buffer with more fields than slots is read up to the last slot, and the loop ends there
as if it had come to the end.
-/

namespace StopTrading.Fix

open Decimal ListSplits

/-- **The fields, written out in order, are these bytes**, up to zeros before each tag. -/
def Reproduces : List FixField → List UInt8 → Prop
  | [], bytes => bytes = []
  | f :: fs, bytes =>
      ∃ zeros rest, bytes = List.replicate zeros zero ++ f.serialize ++ rest ∧ Reproduces fs rest

/-- The text of the first tag. -/
def firstTag (bytes : List UInt8) : List UInt8 := bytes.takeWhile (· ≠ equals)

/-- What follows the first field. -/
def afterFirst (bytes : List UInt8) : List UInt8 :=
  ((bytes.dropWhile (· ≠ equals)).dropWhile (· ≠ soh)).drop 1

/-- **The bytes are so many fields at most, with tags of 32 bits.** -/
def FitsFields : Nat → List UInt8 → Prop
  | _, [] => True
  | 0, _ :: _ => False
  | slots + 1, b :: bs =>
      value (firstTag (b :: bs)) < 2 ^ 32 ∧ FitsFields slots (afterFirst (b :: bs))

instance decidableFitsFields : ∀ slots bytes, Decidable (FitsFields slots bytes)
  | 0, [] => isTrue trivial
  | _ + 1, [] => isTrue trivial
  | 0, _ :: _ => isFalse id
  | slots + 1, b :: bs =>
      have : Decidable (FitsFields slots (afterFirst (b :: bs))) := decidableFitsFields slots _
      inferInstanceAs (Decidable (_ ∧ _))

/-- The first tag is that of the field in front, -/
theorem FieldAt.firstTag_eq {bytes text value rest : List UInt8}
    (h : FieldAt bytes text value rest) : firstTag bytes = text := by
  have htext : ∀ b ∈ text, b ≠ equals := fun b hb heq => h.tagText (heq ▸ hb)
  rw [firstTag, h.split, List.takeWhile_append_of_pos (by simpa using htext)]
  simp

/-- and behind it comes what follows the field. -/
theorem FieldAt.afterFirst_eq {bytes text value rest : List UInt8}
    (h : FieldAt bytes text value rest) : afterFirst bytes = rest := by
  have htext : ∀ b ∈ text, b ≠ equals := fun b hb heq => h.tagText (heq ▸ hb)
  have hvalue : ∀ b ∈ equals :: value, b ≠ soh := by
    rintro b hb rfl
    rcases List.mem_cons.mp hb with heq | hb
    · exact absurd heq (by decide)
    · exact h.value hb
  have hdrop : bytes.dropWhile (· ≠ equals) = (equals :: value) ++ soh :: rest := by
    rw [h.split, List.dropWhile_append_of_pos (by simpa using htext)]
    simp
  rw [afterFirst, hdrop, List.dropWhile_append_of_pos (by simpa using hvalue)]
  simp

/-- **One field**: it is reproduced if its tag keeps its number. -/
theorem reproduces_cons_iff {bytes text value rest : List UInt8} {n : Nat} {f : FixField}
    {fs : List FixField} (h : FieldAt bytes text value rest) (hn : parseUint text = .ok n)
    (htag : f.tag = UInt32.ofNat n) (hvalue : f.value = value) :
    Reproduces (f :: fs) bytes ↔ n < 2 ^ 32 ∧ Reproduces fs rest := by
  obtain ⟨hne, hdigits, -, rfl⟩ := parseUint_eq_ok_iff.mp hn
  constructor
  · rintro ⟨zeros, rest', hbytes, hrest⟩
    have h' : FieldAt bytes (List.replicate zeros zero ++ numeral f.tag.toNat) value rest' := by
      refine ⟨?_, equals_notMem_numeral zeros _, h.value⟩
      rw [hbytes, FixField.serialize, hvalue]
      simp
    obtain ⟨htext, -, rfl⟩ := h.unique h'
    refine ⟨?_, hrest⟩
    -- the text is zeros and the numeral of a tag of 32 bits
    have hsame : Decimal.value text = f.tag.toNat := by
      rw [htext, value_zeros_append, value_numeral]
    exact hsame ▸ f.tag.toNat_lt
  · rintro ⟨hlt, hrest⟩
    obtain ⟨zeros, hzeros⟩ := eq_zeros_append_numeral hne hdigits
    refine ⟨zeros, rest, ?_, hrest⟩
    have htoNat : f.tag.toNat = Decimal.value text := by
      rw [htag, UInt32.toNat_ofNat', Nat.mod_eq_of_lt hlt]
    rw [FixField.serialize, htoNat, hvalue, h.split]
    conv_lhs => rw [hzeros]
    simp

/-- The loop of `decode` from an offset, by induction on the free slots. -/
theorem decodeLoop_reproduces {buffer : List UInt8} {slots : Nat} {st st' : DecodeState}
    (h : decodeLoop buffer slots st = .ok st') :
    ∃ added, st'.msg.fields = st.msg.fields ++ added ∧
      (Reproduces added (buffer.drop st.pos) ↔ FitsFields slots (buffer.drop st.pos)) := by
  induction slots generalizing st with
  | zero =>
      cases h
      refine ⟨[], (List.append_nil _).symm, ?_⟩
      cases buffer.drop st'.pos with
      | nil => exact iff_of_true rfl trivial
      | cons b bs => exact iff_of_false nofun id
  | succ slots ih =>
      rw [decodeLoop] at h
      split at h
      · cases hfield : decodeField buffer st with
        | error e =>
            rw [hfield] at h
            cases h
        | ok st₁ =>
            rw [hfield] at h
            obtain ⟨text, value, rest, n, hat, hn, habsorb⟩ := decodeField_eq_ok_iff.mp hfield
            obtain ⟨hpos, f, hfields, htag, hvalue⟩ := absorbField_eq_ok habsorb
            obtain ⟨added, hadded, hiff⟩ := ih h
            have hrest : buffer.drop st₁.pos = rest := by
              rw [hpos]
              exact hat.drop_next
            rw [hrest] at hiff
            refine ⟨f :: added, by rw [hadded, hfields]; simp, ?_⟩
            obtain ⟨-, -, -, rfl⟩ := parseUint_eq_ok_iff.mp hn
            rw [reproduces_cons_iff hat hn htag hvalue, hiff, ← hat.firstTag_eq,
              ← hat.afterFirst_eq]
            cases hbytes : buffer.drop st.pos with
            | nil => rw [hbytes] at hat; simpa using hat.split
            | cons b bs => exact Iff.rfl
      · rename_i hend
        cases h
        refine ⟨[], (List.append_nil _).symm, ?_⟩
        rw [List.drop_eq_nil_of_le (not_lt.mp hend)]
        exact iff_of_true rfl trivial

/-- **Faithful decoding**: when `decode` succeeds, the fields reproduce the buffer if and
only if it is at most 64 fields with tags of 32 bits. -/
theorem reproduces_iff_fitsFields {c : FixCodec} {buffer : List UInt8} {msg : FixMessage}
    (h : (c.decode buffer).2 = .ok msg) :
    Reproduces msg.fields buffer ↔ FitsFields maxFields buffer := by
  obtain ⟨-, st, hloop, rfl⟩ := FixCodec.decode_eq_ok_iff.mp h
  obtain ⟨added, hadded, hiff⟩ := decodeLoop_reproduces hloop
  rw [fields_finishDecode, hadded]
  exact hiff

/-- A short message whose tags have leading zeros. -/
theorem reproduces_shortMessage :
    ∃ msg, (FixCodec.new.decode (bytesOf "8=FIX.4.4|009=5|35=0|")).2 = .ok msg ∧
      Reproduces msg.fields (bytesOf "8=FIX.4.4|009=5|35=0|") :=
  ⟨_, rfl, (reproduces_iff_fitsFields (c := .new) rfl).mpr (by decide +kernel)⟩

/-- **A tag of more than 32 bits is read as another tag**: `4294967304` becomes `8`. -/
theorem not_forall_reproduces :
    ¬ ∀ (c : FixCodec) (buffer : List UInt8) (msg : FixMessage),
      (c.decode buffer).2 = .ok msg → Reproduces msg.fields buffer := by
  intro h
  have hdecode : (FixCodec.new.decode (bytesOf "4294967304=X|")).2 =
      .ok ⟨bytesOf "4294967304=X|", [⟨8, [88], 11, 3⟩], none, some [88], 0, 0, 0⟩ := by
    decide +kernel
  obtain ⟨zeros, rest, hbytes, -⟩ := h _ _ _ hdecode
  -- the buffer begins with neither `'0'` nor `'8'`
  have hhead : (bytesOf "4294967304=X|").head? = some 52 := by decide +kernel
  rw [hbytes] at hhead
  cases zeros with
  | zero => exact absurd hhead (by simp [FixField.serialize, numeral_of_lt, ofDigit])
  | succ zeros => exact absurd hhead (by simp [List.replicate_succ, zero])

end StopTrading.Fix
