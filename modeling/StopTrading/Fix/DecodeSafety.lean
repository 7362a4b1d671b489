import StopTrading.Fix.Codec
import StopTrading.Library.Panics

/-!
# Whether decoding panics

`decode` once more, with its slices and its unsigned subtractions as operations that may
panic.  The subtraction is a parameter: it wraps in a release build and is checked in the
others.

No slice is ever out of bounds (`decodeIn_wrapping`).  But `decode` has moved `pos` behind the
`'='` when it subtracts it from `eq_pos` for the length of the field, so the first field that
it gets to the end of is its last one (`completes_iff_not_beginsWithField`).

### Why a second model

In the model of `Fix.Codec` a slice is total and a subtraction wraps, as they do in a release
build of code that never goes out of bounds.  Whether it never does has to be asked of a model in
which it could.  `decodeIn` is the same function with these two operations as parameters that may
panic, and `decodeIn_wrapping` says that with wrapping subtractions it is `decode`: the results
about `decode` are about the real thing.

With checked subtractions it is not.  The length of a field is computed from an offset that has
moved on, and the difference is negative for every field.  The length is stored with the field and
`decode` does not look at it again, which is why a release build does not notice.
-/

namespace StopTrading.Fix

open Decimal Panics

/-- `a - b` where it wraps. -/
def wrappingSub (a b : Nat) : Except Panic Nat := .ok (MachineInt.u64 ((a : Int) - b))

/-- `find_byte`. -/
def findByteIn (buffer : List UInt8) (start : Nat) (byte : UInt8) : Except Panic (Option Nat) :=
  if start ≥ buffer.length then .ok none
  else do
    let rest ← sliceFrom buffer start
    .ok ((rest.idxOf? byte).map (start + ·))

section Subtraction

variable (sub : Nat → Nat → Except Panic Nat)

/-- `decode`, the length of a field. -/
def fieldLength (pos eqPos sohPos : Nat) : Except Panic Nat := do
  let valueLen ← sub sohPos pos
  let tagLen ← sub eqPos pos
  .ok (MachineInt.u64 (valueLen + 1 + tagLen + 2))

/-- `decode`, once the length of a field is known. -/
def absorbWith (st : DecodeState) (f : FixField) (sohPos : Nat) : Except FixError DecodeState := do
  let tracked ← trackBody st f.tag f.value f.offset sohPos
  .ok { tracked with msg := storeField tracked.msg f, pos := sohPos + 1 }

/-- One turn of the loop of `decode`. -/
def decodeFieldIn (buffer : List UInt8) (st : DecodeState) :
    Except Panic (Except FixError DecodeState) := do
  match ← findByteIn buffer st.pos equals with
  | none => .ok (.error .invalidTagFormat)
  | some eqPos =>
      let tagText ← sliceRange buffer st.pos eqPos
      match parseUint tagText with
      | .error _ => .ok (.error .invalidTagFormat)
      | .ok n =>
          let pos := eqPos + 1
          match ← findByteIn buffer pos soh with
          | none => .ok (.error .malformedMessage)
          | some sohPos =>
              let value ← sliceRange buffer pos sohPos
              let fieldLen ← fieldLength sub pos eqPos sohPos
              .ok (absorbWith st ⟨UInt32.ofNat n, value, pos, fieldLen⟩ sohPos)

/-- The loop of `decode`, with so many free slots for fields. -/
def decodeLoopIn (buffer : List UInt8) :
    Nat → DecodeState → Except Panic (Except FixError DecodeState)
  | 0, st => .ok (.ok st)
  | slots + 1, st =>
      if st.pos < buffer.length then do
        match ← decodeFieldIn sub buffer st with
        | .error e => .ok (.error e)
        | .ok st => decodeLoopIn buffer slots st
      else .ok (.ok st)

/-- `decode`, after its loop: the checksum over the body. -/
def finishDecodeIn (buffer : List UInt8) (st : DecodeState) : Except Panic FixMessage :=
  if 0 < st.bodyStart ∧ st.bodyStart < st.bodyEnd then do
    let body ← sliceRange buffer st.bodyStart st.bodyEnd
    .ok { st.msg with calculatedChecksum := calculateChecksum body }
  else .ok st.msg

/-- `decode`, without its counters. -/
def decodeIn (buffer : List UInt8) : Except Panic (Except FixError FixMessage) :=
  if buffer = [] then .ok (.error .malformedMessage)
  else do
    match ← decodeLoopIn sub buffer maxFields ⟨.new buffer, 0, 0, 0⟩ with
    | .error e => .ok (.error e)
    | .ok st => do
        let msg ← finishDecodeIn buffer st
        .ok (.ok msg)

/-- `decode`. -/
def FixCodec.decodeIn (c : FixCodec) (buffer : List UInt8) :
    Except Panic (FixCodec × Except FixError FixMessage) := do
  match ← Fix.decodeIn sub buffer with
  | .error e => .ok (c.countError, .error e)
  | .ok msg => .ok ({ c with messagesDecoded := (c.messagesDecoded + 1) % 2 ^ 64 }, .ok msg)

end Subtraction

/-! ## The slices -/

/-- Searching for a byte never panics. -/
theorem findByteIn_eq (buffer : List UInt8) (start : Nat) (byte : UInt8) :
    findByteIn buffer start byte = .ok (findByte buffer start byte) := by
  unfold findByteIn findByte
  split
  · rfl
  · rename_i hlt
    rw [sliceFrom_eq_ok (Nat.le_of_not_le hlt)]
    rfl

/-- What is found is in the buffer, at or behind the offset. -/
theorem findByte_bounds {buffer : List UInt8} {start i : Nat} {byte : UInt8}
    (h : findByte buffer start byte = some i) : start ≤ i ∧ i < buffer.length := by
  obtain ⟨before, after, hsplit, -, rfl⟩ := findByte_eq_some_iff.mp h
  have hlength := congrArg List.length hsplit
  rw [List.length_drop, List.length_append, List.length_cons] at hlength
  omega

/-- **The slice up to a byte that was found** is in bounds. -/
theorem sliceRange_found {buffer : List UInt8} {start i : Nat} {byte : UInt8}
    (h : findByte buffer start byte = some i) :
    sliceRange buffer start i = .ok (slice buffer start i) :=
  have hbounds := findByte_bounds h
  sliceRange_eq_ok hbounds.1 hbounds.2.le

/-- **One turn** for any subtraction: no slice panics. -/
theorem decodeFieldIn_eq (sub : Nat → Nat → Except Panic Nat) (buffer : List UInt8)
    (st : DecodeState) :
    decodeFieldIn sub buffer st =
      match findByte buffer st.pos equals with
      | none => .ok (.error .invalidTagFormat)
      | some eqPos =>
          match parseUint (slice buffer st.pos eqPos) with
          | .error _ => .ok (.error .invalidTagFormat)
          | .ok n =>
              match findByte buffer (eqPos + 1) soh with
              | none => .ok (.error .malformedMessage)
              | some sohPos =>
                  fieldLength sub (eqPos + 1) eqPos sohPos >>= fun fieldLen =>
                    .ok (absorbWith st
                      ⟨UInt32.ofNat n, slice buffer (eqPos + 1) sohPos, eqPos + 1, fieldLen⟩
                      sohPos) := by
  have hbind {α β : Type} (a : α) (f : α → Except Panic β) : (Except.ok a >>= f) = f a := rfl
  rw [decodeFieldIn, findByteIn_eq, hbind]
  cases heq : findByte buffer st.pos equals with
  | none => rfl
  | some eqPos =>
      dsimp only
      rw [sliceRange_found heq, hbind]
      cases parseUint (slice buffer st.pos eqPos) with
      | error e => rfl
      | ok n =>
          dsimp only
          rw [findByteIn_eq, hbind]
          cases hsoh : findByte buffer (eqPos + 1) soh with
          | none => rfl
          | some sohPos =>
              dsimp only
              rw [sliceRange_found hsoh, hbind]

/-! ## A build that wraps -/

/-- A length that wraps is some number. -/
theorem fieldLength_wrapping (pos eqPos sohPos : Nat) :
    fieldLength wrappingSub pos eqPos sohPos =
      .ok (MachineInt.u64 ((sohPos : Int) - pos + 1 + ((eqPos : Int) - pos) + 2)) := by
  refine congrArg Except.ok ?_
  unfold MachineInt.u64
  omega

/-- **One turn** is that of `decode`, -/
theorem decodeFieldIn_wrapping (buffer : List UInt8) (st : DecodeState) :
    decodeFieldIn wrappingSub buffer st = .ok (decodeField buffer st) := by
  rw [decodeFieldIn_eq, decodeField]
  cases findByte buffer st.pos equals with
  | none => rfl
  | some eqPos =>
      dsimp only
      cases parseUint (slice buffer st.pos eqPos) with
      | error e => rfl
      | ok n =>
          dsimp only
          cases findByte buffer (eqPos + 1) soh with
          | none => rfl
          | some sohPos =>
              dsimp only
              rw [fieldLength_wrapping]
              rfl

/-- and so is the loop. -/
theorem decodeLoopIn_wrapping (buffer : List UInt8) (slots : Nat) (st : DecodeState) :
    decodeLoopIn wrappingSub buffer slots st = .ok (decodeLoop buffer slots st) := by
  induction slots generalizing st with
  | zero => rfl
  | succ slots ih =>
      rw [decodeLoopIn, decodeLoop, decodeFieldIn_wrapping]
      split
      · cases decodeField buffer st with
        | error e => rfl
        | ok st' => exact ih st'
      · rfl

/-- A field ends the body, if it does, inside of the buffer. -/
theorem bodyEnd_of_decodeField {buffer : List UInt8} {st st' : DecodeState}
    (h : decodeField buffer st = .ok st') (hend : st.bodyEnd ≤ buffer.length) :
    st'.bodyEnd ≤ buffer.length := by
  obtain ⟨tagText, value, rest, n, hat, -, habsorb⟩ := decodeField_eq_ok_iff.mp h
  have hpos : st.pos + tagText.length + 1 ≤ buffer.length := by
    have hlength := congrArg List.length hat.split
    rw [List.length_drop, List.length_append, List.length_cons] at hlength
    omega
  rw [absorbField] at habsorb
  cases htrack : trackBody st (UInt32.ofNat n) value (st.pos + tagText.length + 1)
      (st.pos + tagText.length + 1 + value.length) with
  | error e =>
      rw [htrack] at habsorb
      cases habsorb
  | ok tracked =>
      rw [htrack] at habsorb
      cases habsorb
      show tracked.bodyEnd ≤ buffer.length
      unfold trackBody at htrack
      split at htrack
      · split at htrack <;> cases htrack
        exact hend
      · split at htrack
        · split at htrack <;> cases htrack
          exact hpos
        · cases htrack
          exact hend

/-- The body ends inside of the buffer, -/
theorem bodyEnd_of_decodeLoop {buffer : List UInt8} {slots : Nat} {st st' : DecodeState}
    (h : decodeLoop buffer slots st = .ok st') (hend : st.bodyEnd ≤ buffer.length) :
    st'.bodyEnd ≤ buffer.length := by
  induction slots generalizing st with
  | zero =>
      cases h
      exact hend
  | succ slots ih =>
      rw [decodeLoop] at h
      split at h
      · cases hfield : decodeField buffer st with
        | error e =>
            rw [hfield] at h
            cases h
        | ok st₁ =>
            rw [hfield] at h
            exact ih h (bodyEnd_of_decodeField hfield hend)
      · cases h
        exact hend

/-- so that it can be summed. -/
theorem finishDecodeIn_eq {buffer : List UInt8} {st : DecodeState}
    (hend : st.bodyEnd ≤ buffer.length) :
    finishDecodeIn buffer st = .ok (finishDecode buffer st) := by
  unfold finishDecodeIn finishDecode
  split
  · rename_i hbody
    rw [sliceRange_eq_ok hbody.2.le hend]
    rfl
  · rfl

/-- **Where subtraction wraps, `decode` does not panic**: no slice is out of bounds, whatever
the buffer. -/
theorem decodeIn_wrapping (c : FixCodec) (buffer : List UInt8) :
    c.decodeIn wrappingSub buffer = .ok (c.decode buffer) := by
  have hmsg : decodeIn wrappingSub buffer = .ok (decodeMessage buffer) := by
    unfold decodeIn decodeMessage
    split
    · rfl
    · rw [decodeLoopIn_wrapping]
      cases hloop : decodeLoop buffer maxFields ⟨.new buffer, 0, 0, 0⟩ with
      | error e => rfl
      | ok st =>
          show (finishDecodeIn buffer st >>= fun msg => Except.ok (Except.ok msg)) = _
          rw [finishDecodeIn_eq (bodyEnd_of_decodeLoop hloop (Nat.zero_le _))]
          rfl
  rw [FixCodec.decodeIn, hmsg, FixCodec.decode]
  cases decodeMessage buffer <;> rfl

/-! ## A build that checks -/

/-- **The buffer begins with a field that can be read to its end.** -/
def BeginsWithField (buffer : List UInt8) : Prop :=
  ∃ tagText value rest, FieldAt buffer tagText value rest ∧
    tagText ≠ [] ∧ (∀ b ∈ tagText, IsDigit b) ∧ Decimal.value tagText < 2 ^ 64

/-- The distance from behind the `'='` back to it. -/
theorem fieldLength_checked {eqPos sohPos : Nat} (h : eqPos + 1 ≤ sohPos) :
    fieldLength checkedSub (eqPos + 1) eqPos sohPos = .error .subtractBelowZero := by
  rw [fieldLength, checkedSub_eq_ok h, checkedSub_eq_error (Nat.lt_succ_self eqPos)]
  rfl

/-- **One turn**: it panics at a field that can be read to its end, and else returns an error. -/
theorem decodeFieldIn_checked (buffer : List UInt8) (st : DecodeState) :
    (BeginsWithField (buffer.drop st.pos) ∧
        decodeFieldIn checkedSub buffer st = .error .subtractBelowZero) ∨
      (¬ BeginsWithField (buffer.drop st.pos) ∧
        ∃ e, decodeFieldIn checkedSub buffer st = .ok (.error e)) := by
  by_cases hbegins : BeginsWithField (buffer.drop st.pos)
  · obtain ⟨tagText, value, rest, hfield, hne, hdigits, hfits⟩ := hbegins
    obtain ⟨heq, htag, hsoh, hvalue⟩ := hfield.found
    have hparse : parseUint tagText = .ok (Decimal.value tagText) :=
      parseUint_eq_ok_iff.mpr ⟨hne, hdigits, hfits, rfl⟩
    refine .inl ⟨⟨tagText, value, rest, hfield, hne, hdigits, hfits⟩, ?_⟩
    rw [decodeFieldIn_eq]
    simp only [heq, htag, hparse, hsoh]
    rw [fieldLength_checked (Nat.le_add_right _ _)]
    rfl
  · refine .inr ⟨hbegins, ?_⟩
    rw [decodeFieldIn_eq]
    cases heq : findByte buffer st.pos equals with
    | none => exact ⟨_, rfl⟩
    | some eqPos =>
        cases hparse : parseUint (slice buffer st.pos eqPos) with
        | error e =>
            simp only [hparse]
            exact ⟨_, rfl⟩
        | ok n =>
            cases hsoh : findByte buffer (eqPos + 1) soh with
            | none =>
                simp only [hparse, hsoh]
                exact ⟨_, rfl⟩
            | some sohPos =>
                obtain ⟨⟨rest, hfield⟩, -, -⟩ := fieldAt_of_found heq hsoh
                obtain ⟨hne, hdigits, hfits, -⟩ := parseUint_eq_ok_iff.mp hparse
                exact absurd ⟨_, _, rest, hfield, hne, hdigits, hfits⟩ hbegins

/-- **Where subtraction is checked**, `decode` completes if and only if the buffer does not
begin with a field that can be read to its end. -/
theorem completes_iff_not_beginsWithField (c : FixCodec) (buffer : List UInt8) :
    Completes (c.decodeIn checkedSub buffer) ↔ ¬ BeginsWithField buffer := by
  by_cases hnil : buffer = []
  · subst hnil
    refine iff_of_true ⟨_, rfl⟩ ?_
    rintro ⟨tagText, value, rest, hfield, -⟩
    have hsplit := hfield.split
    simp at hsplit
  · have hlt : 0 < buffer.length := List.length_pos_iff.mpr hnil
    have hturn := decodeFieldIn_checked buffer ⟨.new buffer, 0, 0, 0⟩
    rw [FixCodec.decodeIn, decodeIn, if_neg hnil, maxFields, decodeLoopIn, if_pos hlt]
    rw [List.drop_zero] at hturn
    -- the first turn decides
    obtain ⟨hbegins, hpanic⟩ | ⟨hbegins, e, herror⟩ := hturn
    · rw [hpanic]
      exact iff_of_false (not_completes_error _) (not_not_intro hbegins)
    · rw [herror]
      exact iff_of_true ⟨_, rfl⟩ hbegins

/-- **One field**: the subtraction for its length goes below zero. -/
theorem not_forall_completes :
    ¬ ∀ (c : FixCodec) (buffer : List UInt8), Completes (c.decodeIn checkedSub buffer) := by
  intro h
  have hpanic : FixCodec.new.decodeIn checkedSub (bytesOf "8=A|") = .error .subtractBelowZero :=
    rfl
  exact absurd (hpanic ▸ h .new (bytesOf "8=A|")) (not_completes_error _)

end StopTrading.Fix
