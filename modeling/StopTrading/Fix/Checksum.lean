import StopTrading.Fix.Codec
import Mathlib.Data.List.DropRight

/-!
# The checksum of a message

`encode` sums the bytes from the first field that is neither `BeginString` nor
`BodyLength` up to the checksum field; `decode` sums those after the last
`BodyLength` field, and includes the bytes `10=` of the checksum field, whose sum is
158.  Both regions are made of whole fields (`encodedBody`, `decodedBody`), so the
message that is read back has a valid checksum exactly when their sums differ by 158
modulo 256 (`checksum_valid_iff`).  In an ordinary message the regions are the same
fields, and the checksum is never valid (`not_sumsAgree_of_ordinary`).

### What is load-bearing

Both sides sum bytes of a buffer between two offsets, and both offsets are set in the middle of a
loop over fields.  The proof never compares offsets.  Each loop is shown to leave its region made
of whole fields, written out (`encode_eq_ok` and `Reading`), and the theorem compares two lists
of fields.

`encode` has its region from the first field that is no header, `decode` from behind the *last*
`BodyLength`.  In an ordinary message these are one place, and the regions still differ, by the
`10=` at the end, whose sum is 158 and not a multiple of 256.  Where they agree all the same, it
is because a second `BodyLength` or a late header makes up for it (`checksum_valid_twoVersions`).
-/

namespace StopTrading.Fix

open Decimal

/-- The fields written out, one after the other. -/
def serializeAll (fields : List FixField) : List UInt8 := fields.flatMap FixField.serialize

/-- No fields are no bytes, -/
@[simp]
theorem serializeAll_nil : serializeAll [] = [] := rfl

/-- and a field comes before the others, -/
@[simp]
theorem serializeAll_cons (f : FixField) (fields : List FixField) :
    serializeAll (f :: fields) = f.serialize ++ serializeAll fields := rfl

/-- as some fields do. -/
@[simp]
theorem serializeAll_append (fields fields' : List FixField) :
    serializeAll (fields ++ fields') = serializeAll fields ++ serializeAll fields' :=
  List.flatMap_append

/-- A field is at least one byte. -/
theorem serialize_ne_nil (f : FixField) : f.serialize ≠ [] := by
  simp [FixField.serialize]

/-! ## The regions -/

/-- The field is `BeginString` or `BodyLength`. -/
def FixField.isHeader (f : FixField) : Bool :=
  f.tag = FixTag.beginString.asU32 ∨ f.tag = FixTag.bodyLength.asU32

/-- The fields `encode` sums: those from the first that is no header, or all. -/
def encodedBody (fields : List FixField) : List FixField :=
  let body := fields.dropWhile FixField.isHeader
  if body = [] then fields else body

/-- The fields `decode` sums: those after the last `BodyLength`. -/
def decodedBody (fields : List FixField) : List FixField :=
  fields.rtakeWhile fun f => f.tag ≠ FixTag.bodyLength.asU32

/-- **The sums agree**: the region of `decode`, with `10=`, has the sum of the region of
`encode`. -/
def SumsAgree (fields : List FixField) : Prop :=
  byteSum (serializeAll (encodedBody fields)) % 256 =
    (byteSum (serializeAll (decodedBody fields)) + 158) % 256

instance (fields : List FixField) : Decidable (SumsAgree fields) :=
  inferInstanceAs (Decidable (_ = _))

/-- The value of a `BodyLength` field can be read. -/
def FixField.LengthReadable (f : FixField) : Prop :=
  f.tag = FixTag.bodyLength.asU32 → ∃ n, f.asUint = .ok n

/-- **A message that is ready to be sent**: it starts with `BeginString` and a numeric
`BodyLength`, has no checksum yet, no `SOH` in a value, and at most 63 fields. -/
structure Sendable (fields : List FixField) : Prop where
  /-- the headers come first -/
  header : ∃ first second rest, fields = first :: second :: rest ∧
    first.tag = FixTag.beginString.asU32 ∧ second.tag = FixTag.bodyLength.asU32 ∧
    second.value ≠ [] ∧ ∀ b ∈ second.value, IsDigit b
  /-- a checksum is yet to come -/
  no_checksum : ∀ f ∈ fields, f.tag ≠ FixTag.checkSum.asU32
  /-- no value ends early -/
  no_soh : ∀ f ∈ fields, soh ∉ f.value
  /-- and there is a slot for the checksum -/
  length_le : fields.length ≤ 63

/-! ## Encoding -/

/-- One field written into a buffer with space for it. -/
theorem encodeField_eq_ok {capacity : Nat} {st st' : EncodeState} {f : FixField}
    (space : (st.written ++ f.serialize).length ≤ capacity)
    (h : encodeField capacity st f = .ok st') :
    st' = ⟨st.written ++ f.serialize,
      if st.checksumStart = 0 ∧ f.isHeader = false then st.written.length
      else st.checksumStart⟩ := by
  have htag : itoaBuffer f.tag (capacity - st.written.length) = numeral f.tag.toNat :=
    itoaBuffer_eq (by simp [FixField.serialize] at space; omega)
  have hheader : (f.tag ≠ FixTag.beginString.asU32 ∧ f.tag ≠ FixTag.bodyLength.asU32) ↔
      f.isHeader = false := by
    simp [FixField.isHeader]
  unfold encodeField at h
  dsimp only at h
  split at h
  · cases h
  · split at h
    · cases h
    · split at h
      · cases h
      · cases h
        simp [htag, hheader, FixField.serialize]

/-- A fold that succeeds has succeeded at its first step. -/
theorem foldlM_cons_eq_ok {α β ε : Type} {step : β → α → Except ε β} {a : α} {as : List α}
    {b b' : β} :
    (a :: as).foldlM step b = .ok b' ↔ ∃ m, step b a = .ok m ∧ as.foldlM step m = .ok b' := by
  rw [List.foldlM_cons]
  cases step b a with
  | error e => exact ⟨nofun, nofun⟩
  | ok m =>
      constructor
      · intro h
        exact ⟨m, rfl, h⟩
      · rintro ⟨_, ⟨⟩, h⟩
        exact h

/-- **The loop of `encode`**: the fields are written one after the other; the checksum
starts where it did, or else at the first field that is no header. -/
theorem encodeFields_eq_ok {capacity : Nat} {fields : List FixField} {st st' : EncodeState}
    (space : (st.written ++ serializeAll fields).length ≤ capacity)
    (h : fields.foldlM (encodeField capacity) st = .ok st') :
    st'.written = st.written ++ serializeAll fields ∧
      (st.checksumStart ≠ 0 → st'.checksumStart = st.checksumStart) ∧
      (st.written ≠ [] → st.checksumStart = 0 →
        st'.written.drop st'.checksumStart =
          if fields.dropWhile FixField.isHeader = [] then st'.written
          else serializeAll (fields.dropWhile FixField.isHeader)) := by
  induction fields generalizing st with
  | nil =>
      cases h
      exact ⟨by simp, fun _ => rfl, fun _ hstart => by simp [hstart]⟩
  | cons f fields ih =>
      obtain ⟨m, hm, hrest⟩ := foldlM_cons_eq_ok.mp h
      rw [serializeAll_cons, ← List.append_assoc] at space ⊢
      have hfirst : (st.written ++ f.serialize).length ≤ capacity := by
        rw [List.length_append] at space
        omega
      obtain rfl := encodeField_eq_ok hfirst hm
      obtain ⟨hwritten, hkeep, hfind⟩ := ih space hrest
      refine ⟨hwritten, fun hstart => ?_, fun hne hstart => ?_⟩
      · simpa [hstart] using hkeep
      · cases hheader : f.isHeader with
        | true =>
            rw [List.dropWhile_cons_of_pos hheader]
            exact hfind (by simp [hne]) (by simp [hheader, hstart])
        | false =>
            -- the checksum starts with this field
            have hlength : st.written.length ≠ 0 := by simpa using hne
            have hstart' : st'.checksumStart = st.written.length := by
              simpa [hstart, hheader, hlength] using hkeep
            rw [List.dropWhile_cons_of_neg (by simp [hheader]), if_neg (List.cons_ne_nil _ _),
              hstart', hwritten, List.append_assoc, List.drop_left, serializeAll_cons]

/-- The loop of `encode` over a whole message. -/
theorem encodeAll_eq_ok {capacity : Nat} {fields : List FixField} {st : EncodeState}
    (h : Sendable fields) (space : (serializeAll fields).length ≤ capacity)
    (hloop : fields.foldlM (encodeField capacity) ⟨[], 0⟩ = .ok st) :
    st.written = serializeAll fields ∧
      st.written.drop st.checksumStart = serializeAll (encodedBody fields) := by
  obtain ⟨first, second, rest, rfl, hfirst, -⟩ := h.header
  have hheader : first.isHeader = true := by simp [FixField.isHeader, hfirst]
  obtain ⟨m, hm, hrest⟩ := foldlM_cons_eq_ok.mp hloop
  rw [serializeAll_cons] at space
  have hfits : (([] : List UInt8) ++ first.serialize).length ≤ capacity := by
    rw [List.length_append] at space
    rw [List.nil_append]
    omega
  -- the first field is a header, and behind it the offset is positive
  obtain rfl := encodeField_eq_ok hfits hm
  obtain ⟨hwritten, -, hfind⟩ := encodeFields_eq_ok (by simpa using space) hrest
  refine ⟨hwritten, ?_⟩
  rw [hfind (by simp [serialize_ne_nil]) (by simp [hheader]), encodedBody,
    List.dropWhile_cons_of_pos hheader]
  split
  · exact hwritten
  · rfl

/-- **What `encode` writes**: the fields, and the checksum of its region. -/
theorem encode_eq_ok {c : FixCodec} {msg : FixMessage} {capacity : Nat} {bytes : List UInt8}
    (h : Sendable msg.fields) (space : (serializeAll msg.fields).length + 7 ≤ capacity)
    (hencode : (c.encode msg capacity).2 = .ok bytes) :
    bytes = serializeAll msg.fields ++ ([ofDigit 1, ofDigit 0, equals] ++
      (writeChecksum (calculateChecksum (serializeAll (encodedBody msg.fields))) ++ [soh])) := by
  have hmessage : encodeMessage msg capacity = .ok bytes := by
    unfold FixCodec.encode at hencode
    split at hencode
    · cases hencode
    · rename_i hbytes
      cases hencode
      exact hbytes
  unfold encodeMessage at hmessage
  cases hloop : msg.fields.foldlM (encodeField capacity) ⟨[], 0⟩ with
  | error e =>
      rw [hloop] at hmessage
      cases hmessage
  | ok st =>
      obtain ⟨hwritten, hregion⟩ := encodeAll_eq_ok h (by omega) hloop
      rw [hwritten] at hregion
      rw [hloop] at hmessage
      simp only [bind, Except.bind, hregion, hwritten] at hmessage
      rw [if_neg (by omega)] at hmessage
      cases hmessage
      simp

/-! ## Decoding -/

/-- The offsets after some fields have been read. -/
structure Reading (done : List FixField) (st : DecodeState) : Prop where
  /-- the offset is behind the fields that were read -/
  pos : st.pos = (serializeAll done).length
  /-- and the body starts behind the last `BodyLength` of them -/
  bodyStart : st.bodyStart =
    (serializeAll (done.rdropWhile fun f => f.tag ≠ FixTag.bodyLength.asU32)).length

/-- Nothing has been read. -/
theorem reading_nil (buffer : List UInt8) : Reading [] ⟨.new buffer, 0, 0, 0⟩ := ⟨rfl, rfl⟩

/-- A field that is no checksum, where it begins. -/
theorem decodeField_serialize {buffer rest : List UInt8} {done : List FixField} {f : FixField}
    {st : DecodeState} (hst : Reading done st)
    (hbuffer : buffer = serializeAll done ++ (f.serialize ++ rest)) (hsoh : soh ∉ f.value) :
    decodeField buffer st =
      absorbField st f.tag f.value (st.pos + (numeral f.tag.toNat).length)
        (st.pos + (numeral f.tag.toNat).length + 1 + f.value.length) := by
  have hat : FieldAt (buffer.drop st.pos) (numeral f.tag.toNat) f.value rest := by
    rw [hst.pos, hbuffer, List.drop_left]
    exact fieldAt_serialize hsoh rest
  have hparse : parseUint (numeral f.tag.toNat) = .ok f.tag.toNat :=
    parseUint_eq_ok_iff.mpr ⟨numeral_ne_nil _, fun b hb => isDigit_of_mem_numeral hb,
      by rw [value_numeral]; exact lt_trans f.tag.toNat_lt (by norm_num),
      (value_numeral _).symm⟩
  rw [decodeField_eq hat, hparse]
  dsimp only
  rw [UInt32.ofNat_toNat]

/-- A field is its numeral, its value, and two bytes. -/
theorem length_serialize (f : FixField) :
    f.serialize.length = (numeral f.tag.toNat).length + 1 + f.value.length + 1 := by
  simp [FixField.serialize]
  omega

/-- A `BodyLength` field is behind all that is not summed. -/
theorem Reading.bodyLength {done : List FixField} {f : FixField} {st st' : DecodeState}
    (hst : Reading done st) (htag : f.tag = FixTag.bodyLength.asU32)
    (hpos : st'.pos = st.pos + f.serialize.length) (hstart : st'.bodyStart = st'.pos) :
    Reading (done ++ [f]) st' := by
  have hall : st'.pos = (serializeAll (done ++ [f])).length := by
    simp [hpos, hst.pos]
  refine ⟨hall, ?_⟩
  rw [List.rdropWhile_concat_neg _ _ _ (by simp [htag]), hstart, hall]

/-- Another field is summed. -/
theorem Reading.other {done : List FixField} {f : FixField} {st st' : DecodeState}
    (hst : Reading done st) (htag : f.tag ≠ FixTag.bodyLength.asU32)
    (hpos : st'.pos = st.pos + f.serialize.length) (hstart : st'.bodyStart = st.bodyStart) :
    Reading (done ++ [f]) st' := by
  refine ⟨by simp [hpos, hst.pos], ?_⟩
  rw [List.rdropWhile_concat_pos _ _ _ (by simp [htag]), hstart, hst.bodyStart]

/-- **One field read**: an unreadable `BodyLength` is an error, and otherwise the offsets
move behind the field. -/
theorem reading_step {buffer rest : List UInt8} {done : List FixField} {f : FixField}
    {st : DecodeState} (hst : Reading done st)
    (hbuffer : buffer = serializeAll done ++ (f.serialize ++ rest)) (hsoh : soh ∉ f.value)
    (htag : f.tag ≠ FixTag.checkSum.asU32) :
    (¬ f.LengthReadable ∧ decodeField buffer st = .error .parseError) ∨
      (f.LengthReadable ∧ ∃ st', decodeField buffer st = .ok st' ∧ Reading (done ++ [f]) st') := by
  have hlength := length_serialize f
  rw [decodeField_serialize hst hbuffer hsoh, absorbField, trackBody]
  by_cases hbody : f.tag = FixTag.bodyLength.asU32
  · rw [if_pos hbody]
    cases hparse : parseUint f.value with
    | error e =>
        refine Or.inl ⟨fun h => ?_, rfl⟩
        obtain ⟨n, hn⟩ := h hbody
        rw [FixField.asUint, hparse] at hn
        cases hn
    | ok n =>
        refine Or.inr ⟨fun _ => ⟨n, hparse⟩, _, rfl, hst.bodyLength hbody ?_ rfl⟩
        dsimp only
        omega
  · rw [if_neg hbody, if_neg htag]
    refine Or.inr ⟨fun h => absurd h hbody, _, rfl, hst.other hbody ?_ rfl⟩
    dsimp only
    omega

/-- **The loop of `decode` over fields** that are no checksum, as long as there are free
slots. -/
theorem decodeLoop_fields {buffer tail : List UInt8} {done fields : List FixField} (slots : Nat)
    {st : DecodeState} (hst : Reading done st)
    (hbuffer : buffer = serializeAll done ++ (serializeAll fields ++ tail))
    (hsoh : ∀ f ∈ fields, soh ∉ f.value) (htag : ∀ f ∈ fields, f.tag ≠ FixTag.checkSum.asU32) :
    ((∃ f ∈ fields, ¬ f.LengthReadable) ∧
        decodeLoop buffer (fields.length + slots) st = .error .parseError) ∨
      ((∀ f ∈ fields, f.LengthReadable) ∧ ∃ st', Reading (done ++ fields) st' ∧
        decodeLoop buffer (fields.length + slots) st = decodeLoop buffer slots st') := by
  induction fields generalizing done st with
  | nil => exact Or.inr ⟨nofun, st, by simpa using hst, by simp⟩
  | cons f fields ih =>
      rw [List.forall_mem_cons] at hsoh htag
      have hfield :
          buffer = serializeAll done ++ (f.serialize ++ (serializeAll fields ++ tail)) := by
        simpa using hbuffer
      have hpos : st.pos < buffer.length := by
        rw [hst.pos, hfield, List.length_append, List.length_append]
        have := List.length_pos_of_ne_nil (serialize_ne_nil f)
        omega
      rw [List.length_cons, Nat.add_right_comm, decodeLoop, if_pos hpos]
      obtain ⟨hbad, herror⟩ | ⟨hgood, st₁, hok, hst₁⟩ := reading_step hst hfield hsoh.1 htag.1
      · rw [herror]
        exact Or.inl ⟨⟨f, List.mem_cons_self, hbad⟩, rfl⟩
      · rw [hok]
        obtain ⟨⟨g, hg, hbad⟩, herror⟩ | ⟨hall, st', hst', hloop⟩ :=
          ih hst₁ (by simpa using hfield) hsoh.2 htag.2
        · exact Or.inl ⟨⟨g, List.mem_cons_of_mem f hg, hbad⟩, herror⟩
        · exact Or.inr ⟨List.forall_mem_cons.mpr ⟨hgood, hall⟩, st', by simpa using hst', hloop⟩

/-- The loop ends at the end of the buffer. -/
theorem decodeLoop_end {buffer : List UInt8} {slots : Nat} {st : DecodeState}
    (h : buffer.length ≤ st.pos) : decodeLoop buffer slots st = .ok st := by
  cases slots with
  | zero => rfl
  | succ slots => rw [decodeLoop, if_neg (not_lt.mpr h)]

/-! ### The checksum field -/

/-- The checksum field that `encode` writes. -/
def checksumField (checksum : Nat) : FixField :=
  ⟨FixTag.checkSum.asU32, writeChecksum checksum, 0, 0⟩

/-- The checksum field is `10=`, three digits and the end. -/
theorem serialize_checksumField (checksum : Nat) :
    (checksumField checksum).serialize =
      [ofDigit 1, ofDigit 0, equals] ++ (writeChecksum checksum ++ [soh]) := by
  have hten : numeral 10 = [ofDigit 1, ofDigit 0] := by
    have hsplit : numeral 10 = numeral 1 ++ [ofDigit 0] :=
      numeral_mul_add (n := 1) (d := 0) (by norm_num) (by norm_num)
    rw [hsplit, numeral_of_lt (by norm_num)]
    rfl
  show numeral 10 ++ _ = _
  rw [hten]
  rfl

/-- A checksum is written in digits. -/
theorem isDigit_of_mem_writeChecksum {checksum : Nat} {b : UInt8} (h : b ∈ writeChecksum checksum) :
    IsDigit b := by
  simp only [writeChecksum, List.mem_cons, List.not_mem_nil, or_false] at h
  rcases h with rfl | rfl | rfl <;> exact isDigit_ofDigit (Nat.mod_lt _ (by norm_num))

/-- The checksum that is written is the one that is read. -/
theorem parseChecksum_writeChecksum {checksum : Nat} (h : checksum < 256) :
    parseChecksum (writeChecksum checksum) = .ok checksum := by
  have hvalue : value (writeChecksum checksum) = checksum := by
    simp only [writeChecksum, value, List.foldl_cons, List.foldl_nil,
      digit_ofDigit (Nat.mod_lt _ (by norm_num))]
    omega
  have hdigits : (writeChecksum checksum).all fun b => IsDigit b := by
    rw [List.all_eq_true]
    exact fun b hb => decide_eq_true (isDigit_of_mem_writeChecksum hb)
  rw [parseChecksum, if_neg (by simp [writeChecksum]), if_pos hdigits, hvalue, if_neg (by omega)]

/-- The checksum field is the end of the region, up to its value. -/
theorem decodeField_checksumField {fields : List FixField} {st : DecodeState} {checksum : Nat}
    (hst : Reading fields st) (h : checksum < 256) :
    ∃ st', decodeField (serializeAll fields ++ ((checksumField checksum).serialize ++ [])) st =
        .ok st' ∧
      st'.pos = (serializeAll fields ++ (checksumField checksum).serialize).length ∧
      st'.bodyStart = st.bodyStart ∧ st'.bodyEnd = (serializeAll fields).length + 3 ∧
      st'.msg.checksum = checksum := by
  have hsoh : soh ∉ (checksumField checksum).value := fun hmem =>
    absurd (isDigit_of_mem_writeChecksum hmem) (by decide)
  have hten : (numeral (checksumField checksum).tag.toNat).length = 2 := by
    have hlength := congrArg List.length (serialize_checksumField checksum)
    rw [length_serialize] at hlength
    simp [checksumField, writeChecksum] at hlength ⊢
    omega
  have hbody : (checksumField checksum).tag ≠ FixTag.bodyLength.asU32 := by
    show FixTag.checkSum.asU32 ≠ FixTag.bodyLength.asU32
    decide
  have hchecksum : (checksumField checksum).tag = FixTag.checkSum.asU32 := rfl
  have hparse : parseChecksum (checksumField checksum).value = .ok checksum :=
    parseChecksum_writeChecksum h
  rw [decodeField_serialize hst rfl hsoh, absorbField, trackBody, if_neg hbody, if_pos hchecksum,
    hparse]
  refine ⟨_, rfl, ?_, rfl, ?_, checksum_storeField _ _⟩
  · dsimp only
    rw [List.length_append, length_serialize, hst.pos]
    omega
  · dsimp only
    rw [hten, hst.pos]

/-- The sum of two parts is the sum of both. -/
theorem byteSum_append (data data' : List UInt8) :
    byteSum (data ++ data') = byteSum data + byteSum data' := by
  simp [byteSum]

/-- The checksum is the sum modulo 256. -/
theorem calculateChecksum_eq (data : List UInt8) : calculateChecksum data = byteSum data % 256 := by
  unfold calculateChecksum
  omega

/-- The region of `decode` ends with `10=`. -/
theorem finishDecode_sent {fields : List FixField} (h : Sendable fields) {st st' : DecodeState}
    {checksum : Nat} (hst : Reading fields st) (hstart : st'.bodyStart = st.bodyStart)
    (hend : st'.bodyEnd = (serializeAll fields).length + 3) :
    (finishDecode (serializeAll fields ++ (checksumField checksum).serialize) st').checksum =
        st'.msg.checksum ∧
      (finishDecode (serializeAll fields ++ (checksumField checksum).serialize)
          st').calculatedChecksum =
        (byteSum (serializeAll (decodedBody fields)) + 158) % 256 := by
  set front := fields.rdropWhile fun f => f.tag ≠ FixTag.bodyLength.asU32 with hfront
  have hsplit : serializeAll fields = serializeAll front ++ serializeAll (decodedBody fields) := by
    rw [← serializeAll_append, hfront, decodedBody, List.rdropWhile_append_rtakeWhile]
  have hbodyStart : st'.bodyStart = (serializeAll front).length := hstart.trans hst.bodyStart
  -- there is a `BodyLength` in front of the region
  have hpos : 0 < (serializeAll front).length := by
    obtain ⟨first, second, rest, hfields, -, hsecond, -⟩ := h.header
    refine List.length_pos_of_ne_nil fun hnil => ?_
    have hempty : front = [] := by
      cases hcases : front with
      | nil => rfl
      | cons f fs => simp [hcases, serialize_ne_nil] at hnil
    have hmem : second ∈ fields := by simp [hfields]
    have hnone := List.rdropWhile_eq_nil_iff.mp (hfront.symm.trans hempty) second hmem
    exact of_decide_eq_true hnone hsecond
  have hslice : slice (serializeAll fields ++ (checksumField checksum).serialize) st'.bodyStart
      st'.bodyEnd = serializeAll (decodedBody fields) ++ [ofDigit 1, ofDigit 0, equals] := by
    have hdrop : (serializeAll fields ++ (checksumField checksum).serialize).drop st'.bodyStart =
        (serializeAll (decodedBody fields) ++ [ofDigit 1, ofDigit 0, equals]) ++
          (writeChecksum checksum ++ [soh]) := by
      rw [hbodyStart, hsplit, List.append_assoc, List.drop_left, serialize_checksumField]
      simp
    have hstop : st'.bodyEnd =
        st'.bodyStart +
          (serializeAll (decodedBody fields) ++ [ofDigit 1, ofDigit 0, equals]).length := by
      rw [hend, hbodyStart, hsplit, List.length_append, List.length_append]
      simp
      omega
    rw [hstop, slice_eq hdrop]
  have hbody : 0 < st'.bodyStart ∧ st'.bodyStart < st'.bodyEnd := by
    rw [hbodyStart, hend, hsplit, List.length_append]
    omega
  have hten : byteSum [ofDigit 1, ofDigit 0, equals] = 158 := by decide
  rw [finishDecode, if_pos hbody]
  refine ⟨rfl, ?_⟩
  dsimp only
  rw [hslice, calculateChecksum_eq, byteSum_append, hten]

/-- **What `decode` makes of a message that was sent**: an error if a `BodyLength` cannot be
read, and otherwise the checksum that was written and the sum of its own region. -/
theorem decode_sent {fields : List FixField} (h : Sendable fields) {checksum : Nat}
    (hchecksum : checksum < 256) (c : FixCodec) :
    ((∃ f ∈ fields, ¬ f.LengthReadable) ∧
        (c.decode (serializeAll fields ++ (checksumField checksum).serialize)).2 =
          .error .parseError) ∨
      ((∀ f ∈ fields, f.LengthReadable) ∧ ∃ decoded,
        (c.decode (serializeAll fields ++ (checksumField checksum).serialize)).2 = .ok decoded ∧
          decoded.checksum = checksum ∧
          decoded.calculatedChecksum =
            (byteSum (serializeAll (decodedBody fields)) + 158) % 256) := by
  set buffer := serializeAll fields ++ (checksumField checksum).serialize with hbuffer
  have hne : buffer ≠ [] := by simp [hbuffer, serialize_ne_nil]
  obtain ⟨slots, hslots⟩ : ∃ slots, maxFields = fields.length + (slots + 1) :=
    ⟨63 - fields.length, by have := h.length_le; rw [maxFields]; omega⟩
  obtain ⟨hbad, herror⟩ | ⟨hall, st, hst, hloop⟩ :=
    decodeLoop_fields (slots + 1) (reading_nil buffer) hbuffer h.no_soh h.no_checksum
  · rw [← hslots] at herror
    exact Or.inl ⟨hbad, FixCodec.decode_error c hne herror⟩
  · refine Or.inr ⟨hall, ?_⟩
    rw [List.nil_append] at hst
    obtain ⟨st', hfield, hpos, hstart, hend, hsum⟩ := decodeField_checksumField hst hchecksum
    rw [List.append_nil, ← hbuffer] at hfield
    rw [← hbuffer] at hpos
    -- the checksum field is the last one, whatever slots are left
    have hlast : decodeLoop buffer (slots + 1) st = .ok st' := by
      have hmore : st.pos < buffer.length := by
        rw [hst.pos, hbuffer, List.length_append, length_serialize]
        omega
      rw [decodeLoop, if_pos hmore, hfield]
      exact decodeLoop_end hpos.ge
    have hdecode : (c.decode buffer).2 = .ok (finishDecode buffer st') :=
      FixCodec.decode_eq_ok_iff.mpr ⟨hne, st', by rw [hslots, hloop, hlast], rfl⟩
    obtain ⟨hchecksum', hcalculated⟩ := finishDecode_sent h hst hstart hend
    rw [← hbuffer] at hchecksum' hcalculated
    exact ⟨_, hdecode, hchecksum'.trans hsum, hcalculated⟩

/-- **The checksum of a message that is sent and read back**: decoding succeeds with a valid
checksum if and only if every `BodyLength` can be read and the sums of the two regions
agree. -/
theorem checksum_valid_iff {c : FixCodec} {msg : FixMessage} {capacity : Nat} {bytes : List UInt8}
    (h : Sendable msg.fields) (space : (serializeAll msg.fields).length + 7 ≤ capacity)
    (hencode : (c.encode msg capacity).2 = .ok bytes) :
    (∃ decoded, (c.decode bytes).2 = .ok decoded ∧ decoded.validateChecksum = true) ↔
      (∀ f ∈ msg.fields, f.LengthReadable) ∧ SumsAgree msg.fields := by
  have hbytes := encode_eq_ok h space hencode
  rw [← serialize_checksumField, calculateChecksum_eq] at hbytes
  subst hbytes
  obtain ⟨⟨f, hf, hbad⟩, herror⟩ | ⟨hall, decoded, hdecoded, hchecksum, hcalculated⟩ :=
    decode_sent h (Nat.mod_lt (byteSum (serializeAll (encodedBody msg.fields))) (by norm_num)) c
  · constructor
    · rintro ⟨decoded, hdecoded, -⟩
      rw [herror] at hdecoded
      cases hdecoded
    · exact fun h => absurd (h.1 f hf) hbad
  · have hvalid : decoded.validateChecksum = true ↔ SumsAgree msg.fields := by
      rw [FixMessage.validateChecksum, hchecksum, hcalculated, beq_iff_eq, SumsAgree]
    rw [hdecoded]
    constructor
    · rintro ⟨_, ⟨⟩, h⟩
      exact ⟨hall, hvalid.mp h⟩
    · exact fun h => ⟨decoded, rfl, hvalid.mpr h.2⟩

/-- **An ordinary message**, with one header in front of its body, never has a valid checksum:
both regions are the body, and `10=` is in only one of them. -/
theorem not_sumsAgree_of_ordinary {first second f : FixField} {rest : List FixField}
    (hfirst : first.isHeader = true) (hsecond : second.tag = FixTag.bodyLength.asU32)
    (hrest : ∀ g ∈ f :: rest, g.isHeader = false) :
    ¬ SumsAgree (first :: second :: f :: rest) := by
  have hbody : ∀ g ∈ f :: rest, g.tag ≠ FixTag.bodyLength.asU32 := by
    intro g hg heq
    simpa [FixField.isHeader, heq] using hrest g hg
  have hencoded : encodedBody (first :: second :: f :: rest) = f :: rest := by
    have hheader : second.isHeader = true := by simp [FixField.isHeader, hsecond]
    rw [encodedBody, List.dropWhile_cons_of_pos hfirst, List.dropWhile_cons_of_pos hheader,
      List.dropWhile_cons_of_neg (by simp [hrest f List.mem_cons_self])]
    rfl
  have hdecoded : decodedBody (first :: second :: f :: rest) = f :: rest := by
    have hreverse : (first :: second :: f :: rest).reverse =
        (f :: rest).reverse ++ [second, first] := by simp
    rw [decodedBody, List.rtakeWhile, hreverse,
      List.takeWhile_append_of_pos fun g hg => decide_eq_true (hbody g (List.mem_reverse.mp hg)),
      List.takeWhile_cons_of_neg (by simp [hsecond])]
    simp
  rw [SumsAgree, hencoded, hdecoded]
  omega

/-- A message of fields given by tag and text. -/
def messageOf (fields : List (FixTag × String)) : FixMessage :=
  { FixMessage.new [] with
    fields := fields.map fun f => ⟨f.1.asU32, bytesOf f.2, 0, (bytesOf f.2).length + 2⟩ }

/-- A message of headers with a numeric length, and a body, is ready to be sent. -/
theorem sendable_messageOf {first second : String} {rest : List (FixTag × String)}
    (hsecond : bytesOf second ≠ [] ∧ ∀ b ∈ bytesOf second, IsDigit b)
    (hrest : ∀ f ∈ (messageOf ((.beginString, first) :: (.bodyLength, second) :: rest)).fields,
      f.tag ≠ FixTag.checkSum.asU32 ∧ soh ∉ f.value)
    (hlength : rest.length ≤ 61) :
    Sendable (messageOf ((.beginString, first) :: (.bodyLength, second) :: rest)).fields where
  header := ⟨_, _, _, rfl, rfl, rfl, hsecond⟩
  no_checksum := fun f hf => (hrest f hf).1
  no_soh := fun f hf => (hrest f hf).2
  length_le := by
    simp [messageOf]
    omega


/-- Two versions around the length, the second one such that the sums agree. -/
theorem checksum_valid_twoVersions :
    ∃ decoded,
      (FixCodec.new.decode (bytesOf "8=FIX.4.4|9=5|8=vv|35=0|10=214|")).2 = .ok decoded ∧
        decoded.validateChecksum = true := by
  have hmessage : Sendable
      (messageOf [(.beginString, "FIX.4.4"), (.bodyLength, "5"), (.beginString, "vv"),
        (.msgType, "0")]).fields :=
    sendable_messageOf (by decide +kernel) (by decide +kernel) (by decide)
  have hencode : (FixCodec.new.encode (messageOf
      [(.beginString, "FIX.4.4"), (.bodyLength, "5"), (.beginString, "vv"), (.msgType, "0")])
      100).2 = .ok (bytesOf "8=FIX.4.4|9=5|8=vv|35=0|10=214|") := by decide +kernel
  refine (checksum_valid_iff hmessage (by decide +kernel) hencode).mpr
    ⟨fun f hf htag => ⟨5, ?_⟩, by decide +kernel⟩
  revert f
  decide +kernel

/-- **An ordinary heartbeat**: its checksum is written as 214 and computed as 116. -/
theorem not_forall_checksum_valid :
    ¬ ∀ (c : FixCodec) (msg : FixMessage) (capacity : Nat) (bytes : List UInt8),
      Sendable msg.fields → (serializeAll msg.fields).length + 7 ≤ capacity →
        (c.encode msg capacity).2 = .ok bytes →
          ∃ decoded, (c.decode bytes).2 = .ok decoded ∧ decoded.validateChecksum = true := by
  intro h
  obtain ⟨decoded, hdecoded, hvalid⟩ := h .new
    (messageOf [(.beginString, "FIX.4.4"), (.bodyLength, "5"), (.msgType, "0")]) 100
    (bytesOf "8=FIX.4.4|9=5|35=0|10=214|")
    (sendable_messageOf (by decide +kernel) (by decide +kernel) (by decide)) (by decide +kernel)
    (by decide +kernel)
  have hinvalid : (FixCodec.new.decode (bytesOf "8=FIX.4.4|9=5|35=0|10=214|")).2.map
      FixMessage.validateChecksum = .ok false := by decide +kernel
  rw [hdecoded] at hinvalid
  simp [Except.map, hvalid] at hinvalid

end StopTrading.Fix
