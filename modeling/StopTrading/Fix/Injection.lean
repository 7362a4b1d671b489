import StopTrading.Fix.Faithful
import StopTrading.Fix.Outgoing

/-!
# What a message that is sent is read as

A sender copies its values byte for byte, and a reader ends a value at the first `SOH`.  So a
message is read as the fields that were pushed exactly if none of the values has an `SOH`
(`readsAs_iff_clean`): else the text of a caller, or an identifier from the configuration, goes
on as fields of its own.

### What is load-bearing

`decode` succeeds or not for many reasons, the checksum included.  The theorem is about what it
reads *if* it succeeds, and takes the fields from the loop, where one field after the other is
read from the front (`decodeLoop_contents`).  A value with an `SOH` ends there, and what follows
is read as a field of its own or not at all; in both cases the first field already differs from
what was pushed, which is why the equivalence needs no more than the first `SOH`.

Which values come from outside is `Outgoing.text` and the configuration.  Numbers and fixed texts
have no `SOH` (`soh_notMem_numeral`).
-/

namespace StopTrading.Fix

open Decimal FixSession

/-- The tag and the value of a field. -/
def FixField.content (f : FixField) : UInt32 × List UInt8 := (f.tag, f.value)

/-- **The bytes are read as these fields**, in this order. -/
def ReadsAs (c : FixCodec) (bytes : List UInt8) (fields : List FixField) : Prop :=
  ∃ msg, (c.decode bytes).2 = .ok msg ∧
    msg.fields.map FixField.content = fields.map FixField.content

/-- What the caller of a sender supplies. -/
def Outgoing.text : Outgoing → List UInt8
  | .logon => []
  | .logout reason => (reason.map textBytes).getD []
  | .heartbeat testReqId _ => (testReqId.map textBytes).getD []
  | .testRequest testReqId => textBytes testReqId

/-- **Nothing that is supplied has an `SOH`**: neither the identifiers, nor the text, nor the
encryption method that a logon states. -/
structure Clean (s : FixSession) (m : Outgoing) : Prop where
  /-- the sender's identifier -/
  sender : soh ∉ s.config.senderCompId
  /-- the target's -/
  target : soh ∉ s.config.targetCompId
  /-- the text of the caller -/
  text : soh ∉ m.text
  /-- and the method, where one is sent -/
  encryptMethod : m = .logon → s.config.encryptMethod ≠ soh

/-! ## What is pushed -/

/-- There is no `SOH` in a number. -/
theorem soh_notMem_numeral (n : Nat) : soh ∉ numeral n := fun hmem =>
  absurd (isDigit_of_mem_numeral hmem) (by decide)

/-- The field is no `BodyLength` and no checksum. -/
def Plain (f : FixTag × List UInt8) : Prop :=
  f.1.asU32 ≠ FixTag.bodyLength.asU32 ∧ f.1.asU32 ≠ FixTag.checkSum.asU32

/-- **What a sender pushes** behind the header. -/
theorem pushedFields_cases (s : FixSession) (m : Outgoing) :
    ∃ msgType body, s.pushedFields m = s.header msgType s.outgoingSeqNum ++ body ∧
      soh ∉ textBytes msgType ∧ (∀ f ∈ body, Plain f) ∧ body.length ≤ 3 ∧
      ((∀ f ∈ body, soh ∉ f.2) ↔
        soh ∉ m.text ∧ (m = .logon → s.config.encryptMethod ≠ soh)) := by
  cases m with
  | logon =>
      have hflag : soh ∉ textBytes "Y" := by decide +kernel
      refine ⟨"A", _, List.append_assoc .., by decide +kernel, ?_, ?_, ?_⟩
      · cases s.config.resetOnLogon <;> simp [Plain, FixTag.asU32]
      · cases s.config.resetOnLogon <;> simp
      · cases s.config.resetOnLogon <;>
          simp [Outgoing.text, soh_notMem_numeral, hflag, eq_comm]
  | logout reason =>
      refine ⟨"5", _, rfl, by decide +kernel, ?_, ?_, ?_⟩ <;> cases reason <;>
        simp [Plain, FixTag.asU32, Outgoing.text]
  | heartbeat testReqId now =>
      refine ⟨"0", _, rfl, by decide +kernel, ?_, ?_, ?_⟩ <;> cases testReqId <;>
        simp [Plain, FixTag.asU32, Outgoing.text]
  | testRequest testReqId =>
      refine ⟨"1", _, rfl, by decide +kernel, ?_, ?_, ?_⟩ <;>
        simp [Plain, FixTag.asU32, Outgoing.text]

/-- What is written of a header. -/
theorem written_header (s : FixSession) (msgType : String) (seqNum : Nat) :
    written (s.header msgType seqNum) =
      [(.beginString, textBytes "FIX.4.4"), (.msgType, textBytes msgType),
        (.senderCompID, s.config.senderCompId), (.targetCompID, s.config.targetCompId),
        (.msgSeqNum, numeral seqNum), (.sendingTime, textBytes "20240101-12:00:00.000")] := rfl

/-- Behind the header everything is written. -/
theorem written_header_append (s : FixSession) (msgType : String) (seqNum : Nat)
    {body : List (FixTag × List UInt8)} (h : ∀ f ∈ body, Plain f) :
    written (s.header msgType seqNum ++ body) = written (s.header msgType seqNum) ++ body := by
  have hbody : written body = body := by
    refine List.filter_eq_self.mpr fun f hf => decide_eq_true fun heq => (h f hf).1 ?_
    rw [heq]
  conv_rhs => rw [← hbody]
  exact List.filter_append ..

/-- **The values that are written** have no `SOH` exactly if nothing that is supplied has. -/
theorem clean_iff_written (s : FixSession) (m : Outgoing) :
    Clean s m ↔ ∀ f ∈ written (s.pushedFields m), soh ∉ f.2 := by
  have hversion : soh ∉ textBytes "FIX.4.4" := by decide +kernel
  have htime : soh ∉ textBytes "20240101-12:00:00.000" := by decide +kernel
  obtain ⟨msgType, body, heq, htype, hplain, -, hbody⟩ := pushedFields_cases s m
  have hheader : (∀ f ∈ written (s.header msgType s.outgoingSeqNum), soh ∉ f.2) ↔
      soh ∉ s.config.senderCompId ∧ soh ∉ s.config.targetCompId := by
    rw [written_header]
    simp [htype, hversion, htime, soh_notMem_numeral]
  rw [heq, written_header_append s _ _ hplain, List.forall_mem_append, hheader, hbody]
  exact ⟨fun h => ⟨⟨h.sender, h.target⟩, h.text, h.encryptMethod⟩,
    fun h => ⟨h.1.1, h.1.2, h.2.1, h.2.2⟩⟩

/-- The fields that are written are plain, and they are few. -/
theorem written_pushedFields (s : FixSession) (m : Outgoing) :
    (∀ f ∈ written (s.pushedFields m), Plain f) ∧
      (written (s.pushedFields m)).length ≤ maxFields ∧ written (s.pushedFields m) ≠ [] := by
  obtain ⟨msgType, body, heq, -, hplain, hlength, -⟩ := pushedFields_cases s m
  rw [heq, written_header_append s _ _ hplain, written_header]
  refine ⟨List.forall_mem_append.mpr ⟨?_, hplain⟩, ?_, nofun⟩
  · simp [Plain, FixTag.asU32]
  · rw [List.length_append]
    show 6 + body.length ≤ 64
    omega

/-! ## What is read -/

/-- A field that is read has no `SOH` in its value. -/
theorem soh_notMem_of_decodeField {buffer : List UInt8} {st st' : DecodeState}
    (h : decodeField buffer st = .ok st') :
    ∃ g, st'.msg.fields = st.msg.fields ++ [g] ∧ soh ∉ g.value := by
  obtain ⟨text, value, rest, n, hat, -, habsorb⟩ := decodeField_eq_ok_iff.mp h
  obtain ⟨-, g, hfields, -, hvalue⟩ := absorbField_eq_ok habsorb
  exact ⟨g, hfields, hvalue ▸ hat.value⟩

/-- A field without an `SOH` in its value is read as it was written, and the rest is left. -/
theorem content_of_decodeField {buffer : List UInt8} {f : FixField} {fields : List FixField}
    {st st' : DecodeState} (hbuffer : buffer.drop st.pos = serializeAll (f :: fields))
    (hsoh : soh ∉ f.value) (h : decodeField buffer st = .ok st') :
    ∃ g, st'.msg.fields = st.msg.fields ++ [g] ∧ g.content = f.content ∧
      buffer.drop st'.pos = serializeAll fields := by
  obtain ⟨text, value, rest, n, hat, hn, habsorb⟩ := decodeField_eq_ok_iff.mp h
  obtain ⟨hpos, g, hfields, htag, hvalue⟩ := absorbField_eq_ok habsorb
  have hfront := fieldAt_serialize hsoh (serializeAll fields)
  rw [← serializeAll_cons, ← hbuffer] at hfront
  obtain ⟨rfl, rfl, rfl⟩ := hat.unique hfront
  refine ⟨g, hfields, ?_, ?_⟩
  · obtain ⟨-, -, -, rfl⟩ := parseUint_eq_ok_iff.mp hn
    rw [FixField.content, htag, hvalue, value_numeral, UInt32.ofNat_toNat]
    rfl
  · rw [hpos]
    exact hat.drop_next

/-- **The loop of `decode` over fields**, if it succeeds: it reads them as they are exactly if
no value has an `SOH`.  By induction on the fields. -/
theorem decodeLoop_contents {buffer : List UInt8} {fields : List FixField} {slots : Nat}
    {st st' : DecodeState} (hbuffer : buffer.drop st.pos = serializeAll fields)
    (hslots : fields.length ≤ slots) (h : decodeLoop buffer slots st = .ok st') :
    st'.msg.fields.map FixField.content =
        st.msg.fields.map FixField.content ++ fields.map FixField.content ↔
      ∀ f ∈ fields, soh ∉ f.value := by
  induction fields generalizing slots st with
  | nil =>
      rw [decodeLoop_end (List.drop_eq_nil_iff.mp hbuffer)] at h
      cases h
      exact iff_of_true (List.append_nil _).symm nofun
  | cons f fields ih =>
      obtain ⟨slots, rfl⟩ : ∃ n, slots = n + 1 :=
        ⟨slots - 1, by rw [List.length_cons] at hslots; omega⟩
      have hmore : st.pos < buffer.length := by
        by_contra hend
        rw [List.drop_eq_nil_of_le (not_lt.mp hend), serializeAll_cons] at hbuffer
        exact serialize_ne_nil f (List.append_eq_nil_iff.mp hbuffer.symm).1
      rw [decodeLoop, if_pos hmore] at h
      cases hfield : decodeField buffer st with
      | error e =>
          rw [hfield] at h
          cases h
      | ok st₁ =>
          rw [hfield] at h
          by_cases hsoh : soh ∈ f.value
          · -- the value is read up to its first `SOH`
            obtain ⟨g, hfields, hvalue⟩ := soh_notMem_of_decodeField hfield
            obtain ⟨added, hadded, -⟩ := decodeLoop_reproduces h
            refine iff_of_false (fun heq => ?_) fun hall => hall f List.mem_cons_self hsoh
            rw [hadded, hfields, List.map_append, List.map_append, List.append_assoc,
              List.append_cancel_left_eq] at heq
            have hcontent : g.value = f.value := congrArg Prod.snd (List.cons.inj heq).1
            exact hvalue (hcontent ▸ hsoh)
          · obtain ⟨g, hfields, hcontent, hrest⟩ := content_of_decodeField hbuffer hsoh hfield
            have htail := ih hrest (by rw [List.length_cons] at hslots; omega) h
            rw [List.forall_mem_cons, and_iff_right hsoh, ← htail, hfields, List.map_append,
              List.map_singleton, hcontent, List.append_assoc, List.singleton_append,
              List.map_cons]

/-- **Fields written out** that are no `BodyLength` and no checksum are read as they are exactly
if no value has an `SOH`. -/
theorem readsAs_serializeAll_iff (c : FixCodec) {fields : List FixField} (hne : fields ≠ [])
    (htags : ∀ f ∈ fields, f.tag ≠ FixTag.bodyLength.asU32 ∧ f.tag ≠ FixTag.checkSum.asU32)
    (hlength : fields.length ≤ maxFields) :
    ReadsAs c (serializeAll fields) fields ↔ ∀ f ∈ fields, soh ∉ f.value := by
  have hbuffer : serializeAll fields ≠ [] := by
    obtain ⟨f, rest, rfl⟩ := List.exists_cons_of_ne_nil hne
    rw [serializeAll_cons]
    exact List.append_ne_nil_of_left_ne_nil (serialize_ne_nil f) _
  constructor
  · rintro ⟨msg, hmsg, hcontents⟩
    obtain ⟨-, st, hloop, rfl⟩ := FixCodec.decode_eq_ok_iff.mp hmsg
    rw [fields_finishDecode] at hcontents
    exact (decodeLoop_contents (List.drop_zero) hlength hloop).mp hcontents
  · intro hclean
    obtain ⟨slots, hslots⟩ : ∃ n, maxFields = fields.length + n :=
      ⟨maxFields - fields.length, by omega⟩
    have hwhole : serializeAll fields = serializeAll [] ++ (serializeAll fields ++ []) := by simp
    obtain ⟨⟨f, hf, hbad⟩, -⟩ | ⟨-, st, hst, hloop⟩ :=
      decodeLoop_fields slots (reading_nil (serializeAll fields)) hwhole hclean
        fun f hf => (htags f hf).2
    · exact absurd (fun hbody => absurd hbody (htags f hf).1) hbad
    · have hend : decodeLoop (serializeAll fields) slots st = .ok st :=
        decodeLoop_end (by rw [hst.pos, List.nil_append])
      rw [← hslots, hend] at hloop
      refine ⟨_, FixCodec.decode_eq_ok_iff.mpr ⟨hbuffer, st, hloop, rfl⟩, ?_⟩
      rw [fields_finishDecode]
      exact (decodeLoop_contents List.drop_zero hlength hloop).mpr hclean

/-- **What is sent is read as the fields that were pushed** exactly if nothing that is supplied
has an `SOH`. -/
theorem readsAs_iff_clean (c : FixCodec) {s : FixSession} {m : Outgoing} {capacity : Nat}
    {bytes : List UInt8} (h : (s.send capacity m).2 = .ok bytes) :
    ReadsAs c bytes ((written (s.pushedFields m)).map fieldOf) ↔ Clean s m := by
  have hbytes : bytes = messageText (s.pushedFields m) := by
    obtain ⟨-, hok⟩ | ⟨-, herror⟩ := s.send_cases capacity m
    · rw [hok] at h
      exact (Except.ok.inj h).symm
    · rw [herror] at h
      cases h
  obtain ⟨htags, hlength, hne⟩ := written_pushedFields s m
  rw [hbytes, clean_iff_written]
  rw [messageText, readsAs_serializeAll_iff c (by simpa using hne) (List.forall_mem_map.mpr htags)
    (by simpa using hlength)]
  exact List.forall_mem_map

/-- A test request is read as it was sent. -/
theorem readsAs_ping :
    ∃ bytes, ((FixSession.new .default).send 200 (.testRequest "PING")).2 = .ok bytes ∧
      ReadsAs .new bytes
        ((written ((FixSession.new .default).pushedFields (.testRequest "PING"))).map fieldOf) := by
  have hsend : ((FixSession.new .default).send 200 (.testRequest "PING")).2 =
      .ok (messageText ((FixSession.new .default).pushedFields (.testRequest "PING"))) := by
    decide +kernel
  refine ⟨_, hsend, (readsAs_iff_clean .new hsend).mpr ⟨?_, ?_, ?_, nofun⟩⟩ <;> decide +kernel

/-- **A test request whose identifier goes on as a field**: `58=PAY` is read as a text. -/
theorem not_forall_readsAs :
    ¬ ∀ (c : FixCodec) (s : FixSession) (m : Outgoing) (capacity : Nat) (bytes : List UInt8),
      (s.send capacity m).2 = .ok bytes →
        ReadsAs c bytes ((written (s.pushedFields m)).map fieldOf) := by
  intro h
  set fields := (FixSession.new .default).pushedFields (.testRequest "PING\x0158=PAY") with hfields
  have hsend : ((FixSession.new .default).send 200 (.testRequest "PING\x0158=PAY")).2 =
      .ok (messageText fields) := by
    rw [hfields]
    decide +kernel
  obtain ⟨msg, hmsg, hcontents⟩ := h .new _ _ _ _ hsend
  have hread : (FixCodec.new.decode (messageText fields)).2.map (fun msg => msg.fields.length) =
      .ok 8 := by
    rw [hfields]
    decide +kernel
  rw [hmsg] at hread
  have hcount : msg.fields.length = 8 := Except.ok.inj hread
  have hpushed : (written fields).length = 7 := by
    rw [hfields]
    decide +kernel
  have hlength := congrArg List.length hcontents
  rw [List.length_map, List.length_map, List.length_map, hcount] at hlength
  exact absurd (hlength.trans hpushed) (by decide)

end StopTrading.Fix
