import StopTrading.Fix.Session
import StopTrading.Fix.Checksum
import StopTrading.Library.Transition

/-!
# Sending

The four messages a session sends, and the calls that may come between them.  A sender takes a
sequence number and changes the session, and only then writes its fields
(`send_eq_encodeMessage`), which fails if they do not fit the buffer (`encodeFields_eq`).

* `numbered_iff_fits` — the numbers of the messages that were written are 1, 2, 3, ... and a
  send that fails changes neither the number nor the state, exactly as long as every message
  fits its buffer (and the counter of 64 bits does not wrap around).

### What is load-bearing

The order within a sender is the defect: it takes a number, sets a state, and then writes, and
nothing of it is undone when the writing fails.  `send_eq_encodeMessage` separates the two
halves, so that the first is a change of the session and the second a function of a buffer.

Whether a message fits depends on the number it carries, since that is written in digits.  `Fits`
is therefore a condition on the session before the send and the buffer that it is given.
-/

namespace StopTrading.Fix

open Decimal Transition

/-- What a session sends. -/
inductive Outgoing where
  | logon
  | logout (reason : Option String)
  | heartbeat (testReqId : Option String) (now : Nat)
  | testRequest (testReqId : String)
  deriving Repr, DecidableEq

namespace FixSession

/-- `send_logon`, `send_logout`, `send_heartbeat` and `send_test_request`. -/
def send (s : FixSession) (capacity : Nat) :
    Outgoing → FixSession × Except FixError (List UInt8)
  | .logon => s.sendLogon capacity
  | .logout reason => s.sendLogout capacity reason
  | .heartbeat testReqId now => s.sendHeartbeat capacity testReqId now
  | .testRequest testReqId => s.sendTestRequest capacity testReqId

/-- The fields a sender pushes. -/
def pushedFields (s : FixSession) : Outgoing → List (FixTag × List UInt8)
  | .logon => s.header "A" s.outgoingSeqNum ++
      [(.encryptMethod, [s.config.encryptMethod]),
        (.heartBtInt, numeral s.config.heartbeatIntervalSec)] ++
      if s.config.resetOnLogon then [(.resetSeqNumFlag, textBytes "Y")] else []
  | .logout reason => s.header "5" s.outgoingSeqNum ++
      reason.toList.map fun r => (.text, textBytes r)
  | .heartbeat testReqId _ => s.header "0" s.outgoingSeqNum ++
      testReqId.toList.map fun id => (.testReqID, textBytes id)
  | .testRequest testReqId => s.header "1" s.outgoingSeqNum ++ [(.testReqID, textBytes testReqId)]

/-- What a sender changes before it writes. -/
def prepared (s : FixSession) : Outgoing → FixSession
  | .logon =>
      { s.incrementSeq with
        stats := { s.stats with logonsSent := next s.stats.logonsSent } }.setState .awaitingLogon
  | .logout _ => s.incrementSeq.setState .loggingOff
  | .heartbeat _ now =>
      { s.incrementSeq with
        stats := { s.stats with heartbeatsSent := next s.stats.heartbeatsSent }
        lastHeartbeatNs := now }
  | .testRequest _ =>
      { s.incrementSeq with
        stats := { s.stats with testRequestsSent := next s.stats.testRequestsSent } }

/-- **A sender** changes the session and then writes its fields. -/
theorem send_eq_encodeMessage (s : FixSession) (capacity : Nat) (m : Outgoing) :
    s.send capacity m = (s.prepared m).encodeMessage (s.pushedFields m) capacity := by
  cases m <;> rfl

end FixSession

/-! ## Writing -/

/-- A field as the codec has it. -/
def fieldOf (f : FixTag × List UInt8) : FixField := ⟨f.1.asU32, f.2, 0, 0⟩

/-- The fields that are written. -/
def written (fields : List (FixTag × List UInt8)) : List (FixTag × List UInt8) :=
  fields.filter fun f => f.1 ≠ .bodyLength

/-- The fields as bytes. -/
def messageText (fields : List (FixTag × List UInt8)) : List UInt8 :=
  serializeAll ((written fields).map fieldOf)

/-- The placeholder of the body length is not written, -/
theorem messageText_cons_bodyLength {f : FixTag × List UInt8} (h : f.1 = .bodyLength)
    (fields : List (FixTag × List UInt8)) : messageText (f :: fields) = messageText fields := by
  rw [messageText, written, List.filter_cons_of_neg (by simp [h])]
  rfl

/-- and everything else is. -/
theorem messageText_cons {f : FixTag × List UInt8} (h : f.1 ≠ .bodyLength)
    (fields : List (FixTag × List UInt8)) :
    messageText (f :: fields) = (fieldOf f).serialize ++ messageText fields := by
  rw [messageText, written, List.filter_cons_of_pos (by simp [h])]
  rfl

namespace FixSession

/-- Bytes are pushed until the buffer is full. -/
theorem foldlM_pushByte {capacity : Nat} (bytes : List UInt8) {done : List UInt8}
    (h : done.length ≤ capacity) :
    bytes.foldlM (pushByte capacity) done =
      if (done ++ bytes).length ≤ capacity then .ok (done ++ bytes)
      else .error .bufferTooSmall := by
  induction bytes generalizing done with
  | nil =>
      rw [List.append_nil, if_pos h]
      rfl
  | cons b bytes ih =>
      rw [List.foldlM_cons, pushByte]
      by_cases hfull : done.length ≥ capacity
      · rw [if_pos hfull, if_neg (by rw [List.length_append, List.length_cons]; omega)]
        rfl
      · rw [if_neg hfull]
        show bytes.foldlM (pushByte capacity) (done ++ [b]) = _
        rw [ih (by rw [List.length_append, List.length_singleton]; omega), List.append_assoc,
          List.singleton_append]

/-- The loop of `encode_message`. -/
theorem foldlM_fields {capacity : Nat} (fields : List (FixTag × List UInt8)) {done : List UInt8}
    (h : done.length ≤ capacity) :
    fields.foldlM
        (fun written f =>
          if f.1 = .bodyLength then .ok written
          else
            (numeral f.1.asU32.toNat ++ equals :: (f.2 ++ [soh])).foldlM (pushByte capacity)
              written)
        done =
      if (done ++ messageText fields).length ≤ capacity then .ok (done ++ messageText fields)
      else .error .bufferTooSmall := by
  induction fields generalizing done with
  | nil =>
      rw [messageText, written, List.filter_nil, List.map_nil, serializeAll_nil, List.append_nil,
        if_pos h]
      rfl
  | cons f fields ih =>
      rw [List.foldlM_cons]
      by_cases hbody : f.1 = .bodyLength
      · rw [if_pos hbody, messageText_cons_bodyLength hbody]
        exact ih h
      · have hserialize : numeral f.1.asU32.toNat ++ equals :: (f.2 ++ [soh]) =
            (fieldOf f).serialize := rfl
        rw [if_neg hbody, hserialize, foldlM_pushByte _ h, messageText_cons hbody,
          ← List.append_assoc]
        by_cases hfits : (done ++ (fieldOf f).serialize).length ≤ capacity
        · rw [if_pos hfits]
          exact ih hfits
        · rw [if_neg hfits, if_neg (by rw [List.length_append]; omega)]
          rfl

/-- **`encode_message`** writes the fields if they fit. -/
theorem encodeFields_eq (fields : List (FixTag × List UInt8)) (capacity : Nat) :
    encodeFields fields capacity =
      if (messageText fields).length ≤ capacity then .ok (messageText fields)
      else .error .bufferTooSmall :=
  foldlM_fields fields (Nat.zero_le capacity)

/-- **A send**: it fails if the fields do not fit, and the session is changed in any case. -/
theorem send_cases (s : FixSession) (capacity : Nat) (m : Outgoing) :
    ((messageText (s.pushedFields m)).length ≤ capacity ∧
        (s.send capacity m).2 = .ok (messageText (s.pushedFields m))) ∨
      (capacity < (messageText (s.pushedFields m)).length ∧
        (s.send capacity m).2 = .error .bufferTooSmall) := by
  rw [send_eq_encodeMessage, encodeMessage, encodeFields_eq]
  by_cases hfits : (messageText (s.pushedFields m)).length ≤ capacity
  · rw [if_pos hfits]
    exact .inl ⟨hfits, rfl⟩
  · rw [if_neg hfits]
    exact .inr ⟨not_le.mp hfits, rfl⟩

/-- A send takes a number, whether it succeeds or not. -/
theorem outgoingSeqNum_send (s : FixSession) (capacity : Nat) (m : Outgoing) :
    (s.send capacity m).1.outgoingSeqNum = next s.outgoingSeqNum := by
  have hprepared : (s.prepared m).outgoingSeqNum = next s.outgoingSeqNum := by cases m <;> rfl
  rw [send_eq_encodeMessage, encodeMessage]
  split <;> exact hprepared

/-- What a send leaves alone: all that receiving is about. -/
theorem receiving_send (s : FixSession) (capacity : Nat) (m : Outgoing) :
    SameSequence s (s.send capacity m).1 ∧
      (s.send capacity m).1.isRunning = s.isRunning ∧
      (s.send capacity m).1.pendingResend = s.pendingResend ∧
      (s.send capacity m).1.resendBeginSeq = s.resendBeginSeq ∧
      (s.send capacity m).1.resendEndSeq = s.resendEndSeq := by
  have hprepared : SameSequence s (s.prepared m) ∧ (s.prepared m).isRunning = s.isRunning ∧
      (s.prepared m).pendingResend = s.pendingResend ∧
      (s.prepared m).resendBeginSeq = s.resendBeginSeq ∧
      (s.prepared m).resendEndSeq = s.resendEndSeq := by
    cases m <;> exact ⟨⟨rfl, rfl, rfl⟩, rfl, rfl, rfl, rfl⟩
  rw [send_eq_encodeMessage, encodeMessage]
  split <;> exact hprepared

/-- Receiving takes no number for sending. -/
theorem outgoingSeqNum_processMessage (s : FixSession) (msg : FixMessage) (now later : Nat) :
    (s.processMessage msg now later).session.outgoingSeqNum = s.outgoingSeqNum := by
  have hhandle (s : FixSession) (handler : Handler) :
      (s.handle later handler).outgoingSeqNum = s.outgoingSeqNum := by cases handler <;> rfl
  have hchecked {checked : FixSession} (h : s.Checked msg now checked) :
      checked.outgoingSeqNum = s.outgoingSeqNum := by
    cases h with
    | unnumbered number => rfl
    | inOrder number => rfl
    | outOfOrder seqNum number ne =>
        unfold requestResend
        split <;> rfl
  have heffect := processMessage_effect s msg now later
  cases heffect with
  | refused running session handler => rw [session]
  | unreadable number session handler =>
      rw [session]
      rfl
  | handled checked running number sequence handler session =>
      rw [session]
      cases msg.handler with
      | none => exact hchecked sequence
      | some handler => exact (hhandle checked handler).trans (hchecked sequence)

end FixSession

/-! ## Runs -/

/-- A call on the session. -/
inductive SessionAction where
  | start (now : Nat)
  | stop
  | processMessage (msg : FixMessage) (now later : Nat)
  | send (capacity : Nat) (m : Outgoing)
  | resetSequenceNumbers
  deriving Repr, DecidableEq

/-- What a call leaves. -/
def FixSession.after (s : FixSession) : SessionAction → FixSession
  | .start now => s.start now
  | .stop => s.stop
  | .processMessage msg now later => (s.processMessage msg now later).session
  | .send capacity m => (s.send capacity m).1
  | .resetSequenceNumbers => s.resetSequenceNumbers

/-- The number a message carries. -/
def msgSeqNum (fields : List (FixTag × List UInt8)) : Option Nat :=
  (fields.lookup .msgSeqNum).map value

/-- A message carries the number that the session is at. -/
theorem msgSeqNum_pushedFields (s : FixSession) (m : Outgoing) :
    msgSeqNum (s.pushedFields m) = some s.outgoingSeqNum := by
  have hlookup : (s.pushedFields m).lookup .msgSeqNum = some (numeral s.outgoingSeqNum) := by
    cases m <;> rfl
  rw [msgSeqNum, hlookup, Option.map_some, value_numeral]

/-- A session, and the numbers of the messages written since the last reset. -/
structure SendRun where
  session : FixSession
  sent : List (Option Nat)

namespace SendRun

/-- A new session. -/
def init (config : SessionConfig) : SendRun := ⟨.new config, []⟩

/-- The numbers written, after a call. -/
def sentAfter (r : SendRun) : SessionAction → List (Option Nat)
  | .send capacity m =>
      match (r.session.send capacity m).2 with
      | .ok _ => r.sent ++ [msgSeqNum (r.session.pushedFields m)]
      | .error _ => r.sent
  | .resetSequenceNumbers => []
  | .stop => if r.session.config.resetOnDisconnect then [] else r.sent
  | .start _ => r.sent
  | .processMessage _ _ _ => r.sent

/-- **One call.** -/
def step (r : SendRun) (a : SessionAction) : Option SendRun :=
  some ⟨r.session.after a, r.sentAfter a⟩

/-- **The messages written are numbered 1, 2, 3, ...** -/
def Numbered (r : SendRun) : Prop := r.sent = (List.range' 1 r.sent.length).map some

/-- **A send that fails changes nothing**: neither the number nor the state. -/
def Atomic (r : SendRun) (a : SessionAction) (r' : SendRun) : Prop :=
  ∀ capacity m, a = .send capacity m →
    (r.session.send capacity m).2 = .error .bufferTooSmall →
      r'.session.outgoingSeqNum = r.session.outgoingSeqNum ∧
        r'.session.getState = r.session.getState

/-- **A message that is sent fits its buffer**, and the counter has not wrapped around. -/
def Fits (r : SendRun) (a : SessionAction) (_ : SendRun) : Prop :=
  ∀ capacity m, a = .send capacity m →
    (messageText (r.session.pushedFields m)).length ≤ capacity ∧ r.session.outgoingSeqNum ≠ 0

/-- The invariant: the next number follows those that were written. -/
structure Numbering (r : SendRun) : Prop where
  /-- what was written is numbered from one on -/
  numbered : r.Numbered
  /-- the counter has not wrapped -/
  length_lt : r.sent.length < 2 ^ 64
  /-- and is at the next number -/
  next_number : r.session.outgoingSeqNum = (r.sent.length + 1) % 2 ^ 64

/-- A number more continues the numbering if it is the next. -/
theorem numbered_concat_iff {sent : List (Option Nat)}
    (h : sent = (List.range' 1 sent.length).map some) {n : Nat} :
    sent ++ [some n] = (List.range' 1 (sent ++ [some n]).length).map some ↔
      n = sent.length + 1 := by
  rw [List.length_append, List.length_singleton, List.range'_concat, List.map_append, ← h]
  simp [Nat.add_comm]

/-- A call that sends nothing keeps the numbers, or starts them anew. -/
theorem Numbering.quiet {r r' : SendRun} (h : r.Numbering)
    (hkeep : r'.sent = r.sent ∧ r'.session.outgoingSeqNum = r.session.outgoingSeqNum ∨
      r'.sent = [] ∧ r'.session.outgoingSeqNum = 1) : r'.Numbering := by
  obtain ⟨hsent, hnext⟩ | ⟨hsent, hnext⟩ := hkeep
  · refine ⟨?_, ?_, ?_⟩
    · rw [Numbered, hsent]
      exact h.numbered
    · rw [hsent]
      exact h.length_lt
    · rw [hsent, hnext]
      exact h.next_number
  · refine ⟨?_, ?_, ?_⟩
    · rw [Numbered, hsent]
      rfl
    · rw [hsent]
      norm_num
    · rw [hsent, hnext]
      norm_num

/-- The calls that are no sends. -/
theorem send_or_quiet (r : SendRun) (a : SessionAction) :
    (∃ capacity m, a = .send capacity m) ∨
      ((∀ capacity m, a ≠ .send capacity m) ∧
        (r.sentAfter a = r.sent ∧
            (r.session.after a).outgoingSeqNum = r.session.outgoingSeqNum ∨
          r.sentAfter a = [] ∧ (r.session.after a).outgoingSeqNum = 1)) := by
  cases a with
  | start now => exact .inr ⟨nofun, .inl ⟨rfl, rfl⟩⟩
  | stop =>
      refine .inr ⟨nofun, ?_⟩
      cases hreset : r.session.config.resetOnDisconnect with
      | true =>
          exact .inr ⟨by simp [sentAfter, hreset],
            by simp [FixSession.after, FixSession.stop, hreset, FixSession.setState,
              FixSession.resetSequenceNumbers]⟩
      | false =>
          exact .inl ⟨by simp [sentAfter, hreset],
            by simp [FixSession.after, FixSession.stop, hreset, FixSession.setState]⟩
  | processMessage msg now later =>
      exact .inr ⟨nofun, .inl ⟨rfl, r.session.outgoingSeqNum_processMessage msg now later⟩⟩
  | send capacity m => exact .inl ⟨capacity, m, rfl⟩
  | resetSequenceNumbers => exact .inr ⟨nofun, .inr ⟨rfl, rfl⟩⟩

/-- **A send** keeps the numbering and changes nothing when it fails, exactly if it fits. -/
theorem send_iff_fits {r r' : SendRun} {capacity : Nat} {m : Outgoing} (h : r.Numbering)
    (hstep : r.step (.send capacity m) = some r') :
    (r.Fits (.send capacity m) r' → r'.Numbering) ∧
      (r'.Numbered ∧ r.Atomic (.send capacity m) r' ↔ r.Fits (.send capacity m) r') := by
  have hfits : r.Fits (.send capacity m) r' ↔
      (messageText (r.session.pushedFields m)).length ≤ capacity ∧
        r.session.outgoingSeqNum ≠ 0 := by
    constructor
    · intro hfits
      exact hfits capacity m rfl
    · rintro hfits _ _ ⟨⟩
      exact hfits
  obtain rfl := Option.some.inj hstep
  have hnext := r.session.outgoingSeqNum_send capacity m
  rw [hfits]
  obtain ⟨hspace, hok⟩ | ⟨hfull, herror⟩ := r.session.send_cases capacity m
  · have hsent : r.sentAfter (.send capacity m) = r.sent ++ [some r.session.outgoingSeqNum] := by
      simp only [sentAfter, hok, msgSeqNum_pushedFields]
    have hatomic : r.Atomic (.send capacity m)
        ⟨r.session.after (.send capacity m), r.sentAfter (.send capacity m)⟩ := by
      rintro _ _ ⟨⟩ herror
      rw [hok] at herror
      cases herror
    have hnumbered : Numbered
        ⟨r.session.after (.send capacity m), r.sentAfter (.send capacity m)⟩ ↔
          r.session.outgoingSeqNum ≠ 0 := by
      rw [Numbered, hsent, numbered_concat_iff h.numbered, h.next_number]
      have hlt := h.length_lt
      omega
    refine ⟨fun hguard => ⟨hnumbered.mpr hguard.2, ?_, ?_⟩, ?_⟩
    · have hnumber := h.next_number
      have hlt := h.length_lt
      rw [hsent, List.length_append, List.length_singleton]
      omega
    · have hnumber := h.next_number
      have hlt := h.length_lt
      show (r.session.send capacity m).1.outgoingSeqNum = _
      rw [hnext, hsent, List.length_append, List.length_singleton, next]
      omega
    · rw [and_iff_left hatomic, hnumbered, and_iff_right hspace]
  · refine ⟨fun hguard => absurd hguard.1 (not_le.mpr hfull), iff_of_false ?_ ?_⟩
    · rintro ⟨-, hatomic⟩
      -- the number was taken all the same
      have hsame : (r.session.send capacity m).1.outgoingSeqNum = r.session.outgoingSeqNum :=
        (hatomic capacity m rfl herror).1
      rw [hnext, next, h.next_number] at hsame
      omega
    · exact fun hguard => absurd hguard.1 (not_le.mpr hfull)

/-- **Outgoing numbers**: the messages written are numbered without holes and sends that fail
change nothing, exactly in the runs in which every message fits its buffer and the counter does
not wrap around. -/
theorem numbered_iff_fits (config : SessionConfig) (actions : List SessionAction) :
    AllSteps step (fun r a r' => r'.Numbered ∧ Atomic r a r') (init config) actions ↔
      AllSteps step Fits (init config) actions := by
  have hinit : (init config).Numbering := ⟨rfl, by norm_num [init], rfl⟩
  have hsends (r : SendRun) (a : SessionAction) (r' : SendRun) (h : r.Numbering)
      (hstep : r.step a = some r') : (r.Fits a r' → r'.Numbering) ∧
        (r'.Numbered ∧ r.Atomic a r' ↔ r.Fits a r') := by
    obtain ⟨capacity, m, rfl⟩ | ⟨hnosend, hquiet⟩ := r.send_or_quiet a
    · exact send_iff_fits h hstep
    · obtain rfl := Option.some.inj hstep
      have hkeep : Numbering ⟨r.session.after a, r.sentAfter a⟩ := h.quiet hquiet
      exact ⟨fun _ => hkeep, iff_of_true
        ⟨hkeep.numbered, fun capacity m heq => absurd heq (hnosend capacity m)⟩
        fun capacity m heq => absurd heq (hnosend capacity m)⟩
  refine (allSteps_iff_of_invariant ?_ ?_ actions _ hinit
    (allSteps_of_forall (fun _ _ _ _ => trivial) _ _)).symm
  · exact fun r a r' h hstep (_ : True) hfits =>
      ⟨(hsends r a r' h hstep).1 hfits, (hsends r a r' h hstep).2.mpr hfits⟩
  · exact fun r a r' h hstep _ hgood => (hsends r a r' h hstep).2.mp hgood

/-- **A buffer without space**: the logon is not written, but its number is taken. -/
theorem not_forall_numbered :
    ¬ ∀ (config : SessionConfig) (actions : List SessionAction),
      AllSteps step (fun r a r' => r'.Numbered ∧ Atomic r a r') (init config) actions := by
  intro h
  obtain ⟨⟨-, hatomic⟩, -⟩ := h .default [.send 0 .logon]
  have htaken := (hatomic 0 .logon rfl rfl).1
  exact absurd htaken (by decide)

end SendRun

end StopTrading.Fix
