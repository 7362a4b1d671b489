import StopTrading.Library.Decimal
import StopTrading.Library.ListSplits
import StopTrading.Library.MachineInt

/-!
# The FIX codec

`FixCodec` writes and reads messages of `tag=value` fields that end in `SOH`.  A
buffer is a list of bytes; `encode` is given the length of the buffer it writes to and
returns the bytes written, and `decode` walks over the buffer by offsets, at most 64
fields far.

What `decode` does at an offset depends only on the bytes from there on:
`decodeField_eq_ok_iff` says that it reads a tag up to the first `'='` and a value up to
the next `SOH`.

### Design decisions

The source keeps 64 slots for fields and a counter; a message here is the list of the slots in
use, and the loop of `decode` counts the free ones down.  Buffers are lists, and offsets are
numbers, as in the source: that `decode` computes with offsets is where it goes wrong, and a
model that parses from the front would not show it.

The counters of a codec are part of it (`FixCodec`), and the theorems about bytes and fields are
about the functions without them.

### What is load-bearing

`FieldAt` is the grammar of one field, with no offset in it, and it is unique: the tag ends at
the first `'='` and the value at the first `SOH`.  `FieldAt.found` and `fieldAt_of_found`
translate between it and what `find_byte` answers, and `decodeField_eq_ok_iff` is the one lemma
on the loop that later modules use.
-/

namespace StopTrading.Fix

open Decimal ListSplits

/-- `SOH`. -/
def soh : UInt8 := 1

/-- The byte `'='`. -/
def equals : UInt8 := 61

/-- `FixTag`, with the two tags that the session adds. -/
inductive FixTag where
  | beginString
  | bodyLength
  | msgType
  | senderCompID
  | targetCompID
  | msgSeqNum
  | sendingTime
  | checkSum
  | clOrdID
  | orderQty
  | side
  | symbol
  | price
  | ordType
  | timeInForce
  | execID
  | execType
  | ordStatus
  | lastQty
  | lastPx
  | heartBtInt
  | testReqID
  | gapFillFlag
  | possResend
  | encryptMethod
  | resetSeqNumFlag
  | text
  deriving Repr, DecidableEq

/-- `as_u32`. -/
def FixTag.asU32 : FixTag → UInt32
  | .beginString => 8
  | .bodyLength => 9
  | .msgType => 35
  | .senderCompID => 49
  | .targetCompID => 56
  | .msgSeqNum => 34
  | .sendingTime => 52
  | .checkSum => 10
  | .clOrdID => 11
  | .orderQty => 38
  | .side => 54
  | .symbol => 55
  | .price => 44
  | .ordType => 40
  | .timeInForce => 59
  | .execID => 17
  | .execType => 150
  | .ordStatus => 39
  | .lastQty => 32
  | .lastPx => 31
  | .heartBtInt => 108
  | .testReqID => 112
  | .gapFillFlag => 123
  | .possResend => 97
  | .encryptMethod => 98
  | .resetSeqNumFlag => 141
  | .text => 58

/-- `FixError`. -/
inductive FixError where
  | bufferTooSmall
  | invalidTagFormat
  | missingRequiredField
  | invalidChecksum
  | invalidUtf8
  | emptyValue
  | parseError
  | malformedMessage
  | outOfBounds
  | sessionNotActive
  | sequenceGap
  | invalidMessageType
  deriving Repr, DecidableEq

/-! ## Numbers -/

/-- The loop of `parse_uint`. -/
def parseDigits : Nat → List UInt8 → Except FixError Nat
  | result, [] => .ok result
  | result, b :: bs =>
      if IsDigit b then
        -- `checked_mul` and `checked_add`
        if result * 10 < 2 ^ 64 ∧ result * 10 + digit b < 2 ^ 64 then
          parseDigits (result * 10 + digit b) bs
        else .error .parseError
      else .error .parseError

/-- `parse_uint`. -/
def parseUint (bytes : List UInt8) : Except FixError Nat :=
  if bytes = [] then .error .emptyValue else parseDigits 0 bytes

/-- `parse_checksum`. -/
def parseChecksum (bytes : List UInt8) : Except FixError Nat :=
  if bytes.length ≠ 3 then .error .parseError
  else if bytes.all fun b => IsDigit b then
    if value bytes > 255 then .error .parseError else .ok (value bytes)
  else .error .parseError

/-- The sum of some bytes. -/
def byteSum (data : List UInt8) : Nat := (data.map UInt8.toNat).sum

/-- `calculate_checksum`. -/
def calculateChecksum (data : List UInt8) : Nat := byteSum data % 2 ^ 32 % 256

/-- `write_checksum`, for a buffer that is long enough. -/
def writeChecksum (checksum : Nat) : List UInt8 :=
  [ofDigit (checksum / 100 % 10), ofDigit (checksum / 10 % 10), ofDigit (checksum % 10)]

/-- The digits `itoa_buffer` collects, the last one first. -/
def itoaDigits : Nat → Nat → List UInt8
  | 0, _ => []
  | idx + 1, value => if value > 0 then ofDigit (value % 10) :: itoaDigits idx (value / 10) else []

/-- `itoa_buffer`: what it writes into a buffer with so much space. -/
def itoaBuffer (value : UInt32) (space : Nat) : List UInt8 :=
  if value = 0 then if 0 < space then [zero] else []
  else
    let digits := itoaDigits 10 value.toNat
    if digits.length > space then [] else digits.reverse

/-! ## Messages -/

/-- `FixField`. -/
structure FixField where
  tag : UInt32
  value : List UInt8
  offset : Nat
  length : Nat
  deriving Repr, DecidableEq

/-- `as_uint`. -/
def FixField.asUint (f : FixField) : Except FixError Nat := parseUint f.value

/-- The field written out: its tag, `'='`, its value, `SOH`. -/
def FixField.serialize (f : FixField) : List UInt8 :=
  numeral f.tag.toNat ++ equals :: (f.value ++ [soh])

/-- `FixMessage`; the fields in use are the list. -/
structure FixMessage where
  buffer : List UInt8
  fields : List FixField
  msgType : Option (List UInt8)
  beginString : Option (List UInt8)
  bodyLength : Nat
  checksum : Nat
  calculatedChecksum : Nat
  deriving Repr, DecidableEq

namespace FixMessage

/-- `new`. -/
def new (buffer : List UInt8) : FixMessage where
  buffer := buffer
  fields := []
  msgType := none
  beginString := none
  bodyLength := 0
  checksum := 0
  calculatedChecksum := 0

/-- `get_field`. -/
def getField (msg : FixMessage) (tag : FixTag) : Option FixField :=
  msg.fields.find? fun f => f.tag = tag.asU32

/-- `msg_type`. -/
def msgTypeStr (msg : FixMessage) : Option String :=
  msg.msgType.bind fun b => String.fromUTF8? ⟨b.toArray⟩

/-- `validate_checksum`. -/
def validateChecksum (msg : FixMessage) : Bool := msg.checksum == msg.calculatedChecksum

end FixMessage

/-! ## Encoding -/

/-- The bytes written so far, and where the checksum starts. -/
structure EncodeState where
  written : List UInt8
  checksumStart : Nat
  deriving Repr, DecidableEq

/-- One turn of the loop of `encode`. -/
def encodeField (capacity : Nat) (st : EncodeState) (f : FixField) : Except FixError EncodeState :=
  let pos := st.written.length
  if (pos + f.length) % 2 ^ 64 > capacity then .error .bufferTooSmall
  else
    let checksumStart :=
      if st.checksumStart = 0 ∧ f.tag ≠ FixTag.beginString.asU32 ∧ f.tag ≠ FixTag.bodyLength.asU32
      then pos else st.checksumStart
    let tagged := st.written ++ itoaBuffer f.tag (capacity - pos)
    if tagged.length ≥ capacity then .error .bufferTooSmall
    else if tagged.length + 1 + f.value.length + 1 > capacity then .error .bufferTooSmall
    else .ok ⟨tagged ++ equals :: f.value ++ [soh], checksumStart⟩

/-- `encode`, without its counters: the bytes written into a buffer of the given length. -/
def encodeMessage (msg : FixMessage) (capacity : Nat) : Except FixError (List UInt8) := do
  let st ← msg.fields.foldlM (encodeField capacity) ⟨[], 0⟩
  let checksum := calculateChecksum (st.written.drop st.checksumStart)
  if st.written.length + 7 > capacity then .error .bufferTooSmall
  else .ok (st.written ++ [ofDigit 1, ofDigit 0, equals] ++ writeChecksum checksum ++ [soh])

/-! ## Decoding -/

/-- `find_byte`. -/
def findByte (buffer : List UInt8) (start : Nat) (byte : UInt8) : Option Nat :=
  if start ≥ buffer.length then none
  else ((buffer.drop start).idxOf? byte).map (start + ·)

/-- `&buffer[start..stop]`. -/
def slice (buffer : List UInt8) (start stop : Nat) : List UInt8 :=
  (buffer.drop start).take (stop - start)

/-- The message so far, and the offsets `decode` keeps. -/
structure DecodeState where
  msg : FixMessage
  pos : Nat
  bodyStart : Nat
  bodyEnd : Nat
  deriving Repr, DecidableEq

/-- `decode`, the body boundaries: what a field with its value at these offsets does to
them. -/
def trackBody (st : DecodeState) (tag : UInt32) (value : List UInt8) (pos sohPos : Nat) :
    Except FixError DecodeState :=
  if tag = FixTag.bodyLength.asU32 then
    match parseUint value with
    | .error _ => .error .parseError
    | .ok n => .ok { st with bodyStart := sohPos + 1, msg := { st.msg with bodyLength := n } }
  else if tag = FixTag.checkSum.asU32 then
    match parseChecksum value with
    | .error _ => .error .invalidChecksum
    | .ok n => .ok { st with bodyEnd := pos, msg := { st.msg with checksum := n } }
  else .ok st

/-- `decode`, the fields: what a field does to the message. -/
def storeField (msg : FixMessage) (f : FixField) : FixMessage :=
  let stored := { msg with fields := msg.fields ++ [f] }
  if f.tag = FixTag.msgType.asU32 then { stored with msgType := some f.value }
  else if f.tag = FixTag.beginString.asU32 then { stored with beginString := some f.value }
  else stored

/-- `decode`, once the tag and the end of its value are found. -/
def absorbField (st : DecodeState) (tag : UInt32) (value : List UInt8) (eqPos sohPos : Nat) :
    Except FixError DecodeState := do
  let pos := eqPos + 1
  -- the distance from the value back to `'='` is negative and wraps
  let fieldLen := MachineInt.u64 ((sohPos : Int) - pos + 1 + ((eqPos : Int) - pos) + 2)
  let tracked ← trackBody st tag value pos sohPos
  .ok { tracked with msg := storeField tracked.msg ⟨tag, value, pos, fieldLen⟩, pos := sohPos + 1 }

/-- One turn of the loop of `decode`. -/
def decodeField (buffer : List UInt8) (st : DecodeState) : Except FixError DecodeState :=
  match findByte buffer st.pos equals with
  | none => .error .invalidTagFormat
  | some eqPos =>
      match parseUint (slice buffer st.pos eqPos) with
      | .error _ => .error .invalidTagFormat
      | .ok n =>
          match findByte buffer (eqPos + 1) soh with
          | none => .error .malformedMessage
          -- `as u32` keeps the low 32 bits of the tag
          | some sohPos =>
              absorbField st (UInt32.ofNat n) (slice buffer (eqPos + 1) sohPos) eqPos sohPos

/-- The loop of `decode`, with so many free slots for fields. -/
def decodeLoop (buffer : List UInt8) : Nat → DecodeState → Except FixError DecodeState
  | 0, st => .ok st
  | slots + 1, st =>
      if st.pos < buffer.length then do
        let st ← decodeField buffer st
        decodeLoop buffer slots st
      else .ok st

/-- The number of slots for fields. -/
def maxFields : Nat := 64

/-- `decode`, after its loop: the checksum over the body. -/
def finishDecode (buffer : List UInt8) (st : DecodeState) : FixMessage :=
  if 0 < st.bodyStart ∧ st.bodyStart < st.bodyEnd then
    { st.msg with calculatedChecksum := calculateChecksum (slice buffer st.bodyStart st.bodyEnd) }
  else st.msg

/-- `decode`, without its counters. -/
def decodeMessage (buffer : List UInt8) : Except FixError FixMessage :=
  if buffer = [] then .error .malformedMessage
  else do
    let st ← decodeLoop buffer maxFields ⟨.new buffer, 0, 0, 0⟩
    .ok (finishDecode buffer st)

/-- `FixCodec`. -/
structure FixCodec where
  messagesEncoded : Nat
  messagesDecoded : Nat
  parseErrors : Nat
  deriving Repr, DecidableEq

namespace FixCodec

/-- `new`. -/
def new : FixCodec := ⟨0, 0, 0⟩

/-- Each error is counted once, where it is returned. -/
def countError (c : FixCodec) : FixCodec :=
  { c with parseErrors := (c.parseErrors + 1) % 2 ^ 64 }

/-- `encode`. -/
def encode (c : FixCodec) (msg : FixMessage) (capacity : Nat) :
    FixCodec × Except FixError (List UInt8) :=
  match encodeMessage msg capacity with
  | .error e => (c.countError, .error e)
  | .ok bytes => ({ c with messagesEncoded := (c.messagesEncoded + 1) % 2 ^ 64 }, .ok bytes)

/-- `decode`. -/
def decode (c : FixCodec) (buffer : List UInt8) : FixCodec × Except FixError FixMessage :=
  match decodeMessage buffer with
  | .error e => (c.countError, .error e)
  | .ok msg => ({ c with messagesDecoded := (c.messagesDecoded + 1) % 2 ^ 64 }, .ok msg)

end FixCodec

/-- A buffer given as a text in which `'|'` stands for `SOH`. -/
def bytesOf (text : String) : List UInt8 :=
  text.toList.map fun c => if c = '|' then soh else c.toUInt8

/-- **A successful `decode`** is a successful loop over a buffer that is not empty. -/
theorem FixCodec.decode_eq_ok_iff {c : FixCodec} {buffer : List UInt8} {msg : FixMessage} :
    (c.decode buffer).2 = .ok msg ↔
      buffer ≠ [] ∧ ∃ st, decodeLoop buffer maxFields ⟨.new buffer, 0, 0, 0⟩ = .ok st ∧
        msg = finishDecode buffer st := by
  have hmsg : (c.decode buffer).2 = decodeMessage buffer := by
    unfold FixCodec.decode
    split <;> simp_all
  rw [hmsg, decodeMessage]
  split
  · rename_i hnil
    exact ⟨nofun, fun h => absurd hnil h.1⟩
  · rename_i hne
    cases decodeLoop buffer maxFields ⟨.new buffer, 0, 0, 0⟩ with
    | error e => exact ⟨nofun, nofun⟩
    | ok st =>
        constructor
        · rintro ⟨⟩
          exact ⟨hne, st, rfl, rfl⟩
        · rintro ⟨-, _, ⟨⟩, rfl⟩
          rfl

/-- An error of the loop is the error of the call. -/
theorem FixCodec.decode_error (c : FixCodec) {buffer : List UInt8} {e : FixError}
    (hne : buffer ≠ []) (h : decodeLoop buffer maxFields ⟨.new buffer, 0, 0, 0⟩ = .error e) :
    (c.decode buffer).2 = .error e := by
  unfold FixCodec.decode
  rw [decodeMessage, if_neg hne, h]
  rfl

/-! ## Numbers, by what they stand for -/

/-- Reading digits never makes a number smaller. -/
theorem le_foldl_digits (r : Nat) (bs : List UInt8) :
    r ≤ bs.foldl (fun acc b => acc * 10 + digit b) r := by
  induction bs generalizing r with
  | nil => exact le_rfl
  | cons b bs ih => exact le_trans (by omega) (ih (r * 10 + digit b))

/-- The checked loop succeeds exactly on digits whose number fits. -/
theorem parseDigits_eq_ok_iff {r n : Nat} {bs : List UInt8} (hr : r < 2 ^ 64) :
    parseDigits r bs = .ok n ↔
      (∀ b ∈ bs, IsDigit b) ∧ bs.foldl (fun acc b => acc * 10 + digit b) r < 2 ^ 64 ∧
        n = bs.foldl (fun acc b => acc * 10 + digit b) r := by
  induction bs generalizing r with
  | nil =>
      rw [parseDigits, Except.ok.injEq]
      exact ⟨fun h => ⟨nofun, hr, h.symm⟩, fun h => h.2.2.symm⟩
  | cons b bs ih =>
      rw [parseDigits, List.forall_mem_cons, List.foldl_cons]
      have hle := le_foldl_digits (r * 10 + digit b) bs
      split
      · rename_i hb
        split
        · rename_i hfits
          rw [ih hfits.2]
          simp only [hb, true_and]
        · rename_i hover
          exact ⟨nofun, fun h => absurd h.2.1 (by omega)⟩
      · rename_i hb
        exact ⟨nofun, fun h => absurd h.1.1 hb⟩

/-- **`parse_uint`** reads exactly the nonempty digit strings whose value fits. -/
theorem parseUint_eq_ok_iff {bs : List UInt8} {n : Nat} :
    parseUint bs = .ok n ↔
      bs ≠ [] ∧ (∀ b ∈ bs, IsDigit b) ∧ value bs < 2 ^ 64 ∧ n = value bs := by
  unfold parseUint
  split
  · rename_i hnil
    exact ⟨nofun, fun h => absurd hnil h.1⟩
  · rename_i hne
    rw [parseDigits_eq_ok_iff (by norm_num)]
    exact (and_iff_right hne).symm

/-- The digits `itoa_buffer` collects are those of the number. -/
theorem itoaDigits_eq {idx value : Nat} (h : value < 10 ^ idx) :
    itoaDigits idx value = (Nat.digits 10 value).map ofDigit := by
  induction idx generalizing value with
  | zero =>
      obtain rfl : value = 0 := by simpa using h
      rfl
  | succ idx ih =>
      rw [itoaDigits]
      split
      · rename_i hpos
        rw [Nat.digits_def' (by norm_num) hpos, List.map_cons, ih (by omega)]
      · rename_i hzero
        obtain rfl : value = 0 := by omega
        rfl

/-- **`itoa_buffer`** writes the numeral of its argument if there is space for it. -/
theorem itoaBuffer_eq {value : UInt32} {space : Nat}
    (h : (numeral value.toNat).length ≤ space) : itoaBuffer value space = numeral value.toNat := by
  unfold itoaBuffer
  split
  · rename_i hzero
    subst hzero
    have hspace : 0 < space := h
    rw [if_pos hspace]
    rfl
  · rename_i hne
    have hpos : value.toNat ≠ 0 := fun h => hne (UInt32.toNat_inj.mp h)
    have hdigits : itoaDigits 10 value.toNat = (Nat.digits 10 value.toNat).map ofDigit :=
      itoaDigits_eq (lt_trans value.toNat_lt (by norm_num))
    rw [numeral, if_neg hpos] at h ⊢
    dsimp only
    rw [hdigits, if_neg (by simpa using h)]

/-! ## What is found at an offset -/

/-- What is found is the first such byte from the offset on. -/
theorem findByte_eq_some_iff {buffer : List UInt8} {start i : Nat} {byte : UInt8} :
    findByte buffer start byte = some i ↔
      ∃ before after, buffer.drop start = before ++ byte :: after ∧ byte ∉ before ∧
        start + before.length = i := by
  unfold findByte
  split
  · rename_i hend
    rw [List.drop_eq_nil_of_le hend]
    simp
  · rw [Option.map_eq_some_iff]
    constructor
    · rintro ⟨j, hj, rfl⟩
      obtain ⟨before, after, hsplit, hfirst, rfl⟩ := idxOf?_eq_some_iff_split.mp hj
      exact ⟨before, after, hsplit, hfirst, rfl⟩
    · rintro ⟨before, after, hsplit, hfirst, rfl⟩
      exact ⟨before.length, idxOf?_eq_some_iff_split.mpr ⟨before, after, hsplit, hfirst, rfl⟩, rfl⟩

/-- A slice is what lies between its offsets, -/
theorem slice_eq {buffer before after : List UInt8} {start : Nat}
    (h : buffer.drop start = before ++ after) :
    slice buffer start (start + before.length) = before := by
  rw [slice, h, Nat.add_sub_cancel_left, List.take_left]

/-- and behind it comes the rest. -/
theorem drop_add {buffer before after : List UInt8} {start : Nat}
    (h : buffer.drop start = before ++ after) : buffer.drop (start + before.length) = after := by
  rw [← List.drop_drop, h, List.drop_left]

/-- The bytes begin with a field of this text and value, and the rest follows. -/
structure FieldAt (bytes tagText value rest : List UInt8) : Prop where
  /-- tag, `'='`, value, `SOH`, and the rest -/
  split : bytes = tagText ++ equals :: (value ++ soh :: rest)
  /-- the tag ends at the first `'='` -/
  tagText : equals ∉ tagText
  /-- and the value at the first `SOH` -/
  value : soh ∉ value

/-- The field at the front of some bytes is determined by them. -/
theorem FieldAt.unique {bytes tagText tagText' value value' rest rest' : List UInt8}
    (h : FieldAt bytes tagText value rest) (h' : FieldAt bytes tagText' value' rest') :
    tagText = tagText' ∧ value = value' ∧ rest = rest' := by
  obtain ⟨htag, hrest⟩ := first_split_inj h.tagText h'.tagText (h.split.symm.trans h'.split)
  exact ⟨htag, first_split_inj h.value h'.value hrest⟩

/-- There is no `'='` in a number. -/
theorem equals_notMem_numeral (zeros n : Nat) :
    equals ∉ List.replicate zeros zero ++ numeral n := by
  intro hmem
  rcases List.mem_append.mp hmem with h | h
  · exact absurd (List.eq_of_mem_replicate h) (by decide)
  · exact absurd (isDigit_of_mem_numeral h) (by decide)

/-- A field written out is read as itself. -/
theorem fieldAt_serialize {f : FixField} (h : soh ∉ f.value) (rest : List UInt8) :
    FieldAt (f.serialize ++ rest) (numeral f.tag.toNat) f.value rest where
  split := by simp [FixField.serialize]
  tagText := equals_notMem_numeral 0 f.tag.toNat
  value := h

/-- The offsets of a field, found. -/
theorem FieldAt.found {buffer tagText value rest : List UInt8} {pos : Nat}
    (h : FieldAt (buffer.drop pos) tagText value rest) :
    findByte buffer pos equals = some (pos + tagText.length) ∧
      slice buffer pos (pos + tagText.length) = tagText ∧
      findByte buffer (pos + tagText.length + 1) soh =
        some (pos + tagText.length + 1 + value.length) ∧
      slice buffer (pos + tagText.length + 1) (pos + tagText.length + 1 + value.length) =
        value := by
  have hvalue : buffer.drop (pos + tagText.length + 1) = value ++ soh :: rest := by
    rw [← List.drop_drop, drop_add h.split]
    rfl
  exact ⟨findByte_eq_some_iff.mpr ⟨tagText, _, h.split, h.tagText, rfl⟩, slice_eq h.split,
    findByte_eq_some_iff.mpr ⟨value, rest, hvalue, h.value, rfl⟩, slice_eq hvalue⟩

/-- The next field begins where this one ends. -/
theorem FieldAt.drop_next {buffer tagText value rest : List UInt8} {pos : Nat}
    (h : FieldAt (buffer.drop pos) tagText value rest) :
    buffer.drop (pos + tagText.length + 1 + value.length + 1) = rest := by
  have hlength : pos + tagText.length + 1 + value.length + 1 =
      pos + (tagText ++ equals :: (value ++ [soh])).length := by
    simp
    omega
  rw [hlength]
  exact drop_add (h.split.trans (by simp))

/-- What is found is a field. -/
theorem fieldAt_of_found {buffer : List UInt8} {pos eqPos sohPos : Nat}
    (heq : findByte buffer pos equals = some eqPos)
    (hsoh : findByte buffer (eqPos + 1) soh = some sohPos) :
    (∃ rest, FieldAt (buffer.drop pos) (slice buffer pos eqPos)
        (slice buffer (eqPos + 1) sohPos) rest) ∧
      eqPos = pos + (slice buffer pos eqPos).length ∧
      sohPos = eqPos + 1 + (slice buffer (eqPos + 1) sohPos).length := by
  obtain ⟨tagText, after, hsplit, htag, rfl⟩ := findByte_eq_some_iff.mp heq
  have hafter : buffer.drop (pos + tagText.length + 1) = after := by
    rw [← List.drop_drop, drop_add hsplit]
    rfl
  obtain ⟨value, rest, hrest, hvalue, rfl⟩ := findByte_eq_some_iff.mp hsoh
  rw [slice_eq hrest, slice_eq hsplit]
  exact ⟨⟨rest, hsplit.trans (by rw [← hrest, hafter]), htag, hvalue⟩, rfl, rfl⟩

/-- **One turn of the loop of `decode`** where a field begins. -/
theorem decodeField_eq {buffer tagText value rest : List UInt8} {st : DecodeState}
    (h : FieldAt (buffer.drop st.pos) tagText value rest) :
    decodeField buffer st =
      match parseUint tagText with
      | .error _ => .error .invalidTagFormat
      | .ok n =>
          absorbField st (UInt32.ofNat n) value (st.pos + tagText.length)
            (st.pos + tagText.length + 1 + value.length) := by
  obtain ⟨heq, htag, hsoh, hvalue⟩ := h.found
  simp only [decodeField, heq, htag, hsoh, hvalue]

/-- A turn that succeeds finds a field. -/
theorem decodeField_eq_ok_iff {buffer : List UInt8} {st st' : DecodeState} :
    decodeField buffer st = .ok st' ↔
      ∃ tagText value rest n, FieldAt (buffer.drop st.pos) tagText value rest ∧
        parseUint tagText = .ok n ∧
        absorbField st (UInt32.ofNat n) value (st.pos + tagText.length)
          (st.pos + tagText.length + 1 + value.length) = .ok st' := by
  constructor
  · intro h
    unfold decodeField at h
    split at h
    · cases h
    · rename_i eqPos heq
      split at h
      · cases h
      · rename_i n hn
        split at h
        · cases h
        · rename_i sohPos hsoh
          obtain ⟨⟨rest, hfield⟩, heqPos, hsohPos⟩ := fieldAt_of_found heq hsoh
          exact ⟨_, _, rest, n, hfield, hn, by rw [← heqPos, ← hsohPos]; exact h⟩
  · rintro ⟨tagText, value, rest, n, hfield, hn, habsorb⟩
    rw [decodeField_eq hfield, hn]
    exact habsorb

/-- A field is appended to the message, -/
@[simp]
theorem fields_storeField (msg : FixMessage) (f : FixField) :
    (storeField msg f).fields = msg.fields ++ [f] := by
  unfold storeField
  split
  · rfl
  · split <;> rfl

/-- and is no checksum, -/
@[simp]
theorem checksum_storeField (msg : FixMessage) (f : FixField) :
    (storeField msg f).checksum = msg.checksum := by
  unfold storeField
  split
  · rfl
  · split <;> rfl

/-- and the end of `decode` adds none. -/
@[simp]
theorem fields_finishDecode (buffer : List UInt8) (st : DecodeState) :
    (finishDecode buffer st).fields = st.msg.fields := by
  unfold finishDecode
  split <;> rfl

/-- The body boundaries are tracked outside the fields. -/
theorem fields_trackBody {st st' : DecodeState} {tag : UInt32} {value : List UInt8}
    {pos sohPos : Nat} (h : trackBody st tag value pos sohPos = .ok st') :
    st'.msg.fields = st.msg.fields := by
  unfold trackBody at h
  split at h
  · split at h
    · cases h
    · cases h; rfl
  · split at h
    · split at h
      · cases h
      · cases h; rfl
    · cases h; rfl

/-- What a field adds to the message. -/
theorem absorbField_eq_ok {st st' : DecodeState} {tag : UInt32} {value : List UInt8}
    {eqPos sohPos : Nat} (h : absorbField st tag value eqPos sohPos = .ok st') :
    st'.pos = sohPos + 1 ∧ ∃ f : FixField, st'.msg.fields = st.msg.fields ++ [f] ∧
      f.tag = tag ∧ f.value = value := by
  rw [absorbField] at h
  cases htrack : trackBody st tag value (eqPos + 1) sohPos with
  | error e =>
      rw [htrack] at h
      cases h
  | ok tracked =>
      rw [htrack] at h
      cases h
      exact ⟨rfl, _, (fields_storeField _ _).trans (congrArg (· ++ _) (fields_trackBody htrack)),
        rfl, rfl⟩

end StopTrading.Fix
