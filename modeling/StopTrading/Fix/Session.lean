import StopTrading.Fix.Codec

/-!
# The FIX session

`FixSession` keeps a state, the sequence numbers of both directions and the bounds of
a pending resend request.  `processMessage` is given the readings of the clock its calls
make, and returns beside the result the handler it hands the message to.

`validate_sequence` answers with a flag that `process_message` only uses to ask for a
resend: the message goes to its handler in any case (`processMessage_effect`).

### Design decisions

A state is kept as a `u32` and converted back and forth, as in the source, where it is an atomic;
so a state that is stored is one that can be read (`u32ToState_stateToU32`).  The clock is read
where the source reads it, and the readings are arguments.

Sends are in `Fix.Outgoing` and runs in the modules behind it.  What every one of them needs is
which part of the session a call can touch, and these are the lemmas of this module: handlers and
sends leave the incoming numbers alone, and all but a few leave the state.
-/

namespace StopTrading.Fix

open Decimal

/-- `SessionState`. -/
inductive SessionState where
  | disconnected
  | connecting
  | awaitingLogon
  | loggedOn
  | loggingOff
  | terminated
  | resendRequested
  deriving Repr, DecidableEq

/-- `is_active`. -/
def SessionState.isActive : SessionState → Bool
  | .loggedOn => true
  | .resendRequested => true
  | _ => false

/-- `state_to_u32`. -/
def stateToU32 : SessionState → Nat
  | .disconnected => 0
  | .connecting => 1
  | .awaitingLogon => 2
  | .loggedOn => 3
  | .loggingOff => 4
  | .terminated => 5
  | .resendRequested => 6

/-- `u32_to_state`. -/
def u32ToState : Nat → SessionState
  | 0 => .disconnected
  | 1 => .connecting
  | 2 => .awaitingLogon
  | 3 => .loggedOn
  | 4 => .loggingOff
  | 5 => .terminated
  | 6 => .resendRequested
  | _ => .disconnected

/-- A state is read as it was stored. -/
@[simp]
theorem u32ToState_stateToU32 (state : SessionState) : u32ToState (stateToU32 state) = state := by
  cases state <;> rfl

/-- `SessionConfig`. -/
structure SessionConfig where
  senderCompId : List UInt8
  targetCompId : List UInt8
  heartbeatIntervalSec : Nat
  encryptMethod : UInt8
  resetOnLogon : Bool
  resetOnDisconnect : Bool
  deriving Repr, DecidableEq

/-- `SessionConfig::default`. -/
def SessionConfig.default : SessionConfig where
  senderCompId := List.replicate 32 0
  targetCompId := List.replicate 32 0
  heartbeatIntervalSec := 30
  encryptMethod := 0
  resetOnLogon := false
  resetOnDisconnect := false

/-- `SessionStats`. -/
structure SessionStats where
  messagesSent : Nat
  messagesReceived : Nat
  logonsSent : Nat
  logonsReceived : Nat
  heartbeatsSent : Nat
  heartbeatsReceived : Nat
  resendRequestsSent : Nat
  sequenceGaps : Nat
  testRequestsSent : Nat
  lastMessageNs : Nat
  deriving Repr, DecidableEq

/-- `SessionStats::new`. -/
def SessionStats.new : SessionStats := ⟨0, 0, 0, 0, 0, 0, 0, 0, 0, 0⟩

/-- A counter of 64 bits. -/
def next (n : Nat) : Nat := (n + 1) % 2 ^ 64

/-- `FixSession`. -/
structure FixSession where
  config : SessionConfig
  state : Nat
  outgoingSeqNum : Nat
  incomingSeqNum : Nat
  lastReceivedSeq : Nat
  isRunning : Bool
  lastActivityNs : Nat
  lastHeartbeatNs : Nat
  stats : SessionStats
  pendingResend : Bool
  resendBeginSeq : Nat
  resendEndSeq : Nat
  deriving Repr, DecidableEq

/-- The handlers of `process_message`. -/
inductive Handler where
  | heartbeat
  | logon
  | logout
  | testRequest
  | resendRequest
  | reject
  | applicationMessage
  deriving Repr, DecidableEq

/-- The handler of a message type. -/
def handlerOf (msgType : String) : Handler :=
  if msgType = "0" then .heartbeat
  else if msgType = "A" then .logon
  else if msgType = "5" then .logout
  else if msgType = "1" then .testRequest
  else if msgType = "2" then .resendRequest
  else if msgType = "3" then .reject
  else .applicationMessage

namespace FixSession

/-- `new`. -/
def new (config : SessionConfig) : FixSession where
  config := config
  state := stateToU32 .disconnected
  outgoingSeqNum := 1
  incomingSeqNum := 1
  lastReceivedSeq := 0
  isRunning := false
  lastActivityNs := 0
  lastHeartbeatNs := 0
  stats := .new
  pendingResend := false
  resendBeginSeq := 0
  resendEndSeq := 0

/-- `get_state`. -/
def getState (s : FixSession) : SessionState := u32ToState s.state

/-- `set_state`. -/
def setState (s : FixSession) (state : SessionState) : FixSession :=
  { s with state := stateToU32 state }

/-- `reset_sequence_numbers`. -/
def resetSequenceNumbers (s : FixSession) : FixSession :=
  { s with outgoingSeqNum := 1, incomingSeqNum := 1, lastReceivedSeq := 0 }

/-- `start`. -/
def start (s : FixSession) (now : Nat) : FixSession :=
  { s.setState .connecting with isRunning := true, lastActivityNs := now }

/-- `stop`. -/
def stop (s : FixSession) : FixSession :=
  let stopped := { s with isRunning := false }
  (if s.config.resetOnDisconnect then stopped.resetSequenceNumbers else stopped).setState
    .terminated

/-! ## Receiving -/

/-- `validate_sequence`. -/
def validateSequence (s : FixSession) (receivedSeq : Nat) : FixSession × Bool :=
  if receivedSeq < s.incomingSeqNum then (s, false)
  else if receivedSeq > s.incomingSeqNum then (s, false)
  else
    ({ s with incomingSeqNum := next s.incomingSeqNum, lastReceivedSeq := receivedSeq }, true)

/-- `request_resend`. -/
def requestResend (s : FixSession) (expectedSeq : Nat) : FixSession :=
  if expectedSeq > next s.lastReceivedSeq then
    let requested : FixSession :=
      { s with
        stats :=
          { s.stats with
            sequenceGaps := next s.stats.sequenceGaps
            resendRequestsSent := next s.stats.resendRequestsSent }
        pendingResend := true
        resendBeginSeq := next s.lastReceivedSeq
        resendEndSeq := expectedSeq - 1 }
    requested.setState .resendRequested
  else s

/-- `handle_heartbeat`, `handle_logon` and so on; a heartbeat reads the clock. -/
def handle (s : FixSession) (now : Nat) : Handler → FixSession
  | .heartbeat =>
      { s with
        stats := { s.stats with heartbeatsReceived := next s.stats.heartbeatsReceived }
        lastHeartbeatNs := now }
  | .logon =>
      { s with stats := { s.stats with logonsReceived := next s.stats.logonsReceived } }.setState
        .loggedOn
  | .logout => s.setState .disconnected
  | .resendRequest => { s.setState .loggedOn with pendingResend := false }
  | .testRequest => s
  | .reject => s
  | .applicationMessage => s

/-- `process_message`, what it notes of any message. -/
def noteReceived (s : FixSession) (now : Nat) : FixSession :=
  { s with
    lastActivityNs := now
    stats :=
      { s.stats with
        messagesReceived := next s.stats.messagesReceived
        lastMessageNs := now } }

/-- `process_message`, the sequence number. -/
def checkSequence (s : FixSession) (msg : FixMessage) : FixSession × Except FixError Unit :=
  match msg.getField .msgSeqNum with
  | none => (s, .ok ())
  | some seqField =>
      match seqField.asUint with
      | .error _ => (s, .error .parseError)
      | .ok seqNum =>
          match s.validateSequence seqNum with
          | (s, true) => (s, .ok ())
          | (s, false) => (s.requestResend seqNum, .ok ())

/-- What a call of `process_message` leaves and returns, and the handler it calls. -/
structure Processed where
  session : FixSession
  result : Except FixError Unit
  handler : Option Handler

/-- `process_message`; a heartbeat reads the clock once more. -/
def processMessage (s : FixSession) (msg : FixMessage) (now later : Nat) : Processed :=
  if s.isRunning then
    match (s.noteReceived now).checkSequence msg with
    | (s, .error e) => ⟨s, .error e, none⟩
    | (s, .ok ()) =>
        match msg.msgTypeStr with
        | none => ⟨s, .ok (), none⟩
        | some msgType => ⟨s.handle later (handlerOf msgType), .ok (), some (handlerOf msgType)⟩
  else ⟨s, .error .sessionNotActive, none⟩

/-! ## Sending -/

/-- A byte written, if there is space. -/
def pushByte (capacity : Nat) (written : List UInt8) (b : UInt8) : Except FixError (List UInt8) :=
  if written.length ≥ capacity then .error .bufferTooSmall else .ok (written ++ [b])

/-- `encode_message`, the fields; the placeholder of the body length is left out. -/
def encodeFields (fields : List (FixTag × List UInt8)) (capacity : Nat) :
    Except FixError (List UInt8) :=
  fields.foldlM
    (fun written f =>
      if f.1 = .bodyLength then .ok written
      else
        (numeral f.1.asU32.toNat ++ equals :: (f.2 ++ [soh])).foldlM (pushByte capacity) written)
    []

/-- `encode_message`. -/
def encodeMessage (s : FixSession) (fields : List (FixTag × List UInt8)) (capacity : Nat) :
    FixSession × Except FixError (List UInt8) :=
  match encodeFields fields capacity with
  | .error e => (s, .error e)
  | .ok written =>
      ({ s with stats := { s.stats with messagesSent := next s.stats.messagesSent } }, .ok written)

/-- The bytes of a text. -/
def textBytes (text : String) : List UInt8 := text.toUTF8.toList

/-- The standard header of a message. -/
def header (s : FixSession) (msgType : String) (seqNum : Nat) : List (FixTag × List UInt8) :=
  [(.beginString, textBytes "FIX.4.4"), (.bodyLength, textBytes "000"),
    (.msgType, textBytes msgType), (.senderCompID, s.config.senderCompId),
    (.targetCompID, s.config.targetCompId), (.msgSeqNum, numeral seqNum),
    (.sendingTime, textBytes "20240101-12:00:00.000")]

/-- `get_and_increment_seq`, what it leaves. -/
def incrementSeq (s : FixSession) : FixSession := { s with outgoingSeqNum := next s.outgoingSeqNum }

/-- `send_logon`. -/
def sendLogon (s : FixSession) (capacity : Nat) : FixSession × Except FixError (List UInt8) :=
  let fields := s.header "A" s.outgoingSeqNum ++
    [(.encryptMethod, [s.config.encryptMethod]),
      (.heartBtInt, numeral s.config.heartbeatIntervalSec)] ++
    if s.config.resetOnLogon then [(.resetSeqNumFlag, textBytes "Y")] else []
  let counted : FixSession :=
    { s.incrementSeq with stats := { s.stats with logonsSent := next s.stats.logonsSent } }
  (counted.setState .awaitingLogon).encodeMessage fields capacity

/-- `send_logout`. -/
def sendLogout (s : FixSession) (capacity : Nat) (reason : Option String) :
    FixSession × Except FixError (List UInt8) :=
  let fields := s.header "5" s.outgoingSeqNum ++
    reason.toList.map fun r => (.text, textBytes r)
  (s.incrementSeq.setState .loggingOff).encodeMessage fields capacity

/-- `send_heartbeat`; it reads the clock. -/
def sendHeartbeat (s : FixSession) (capacity : Nat) (testReqId : Option String) (now : Nat) :
    FixSession × Except FixError (List UInt8) :=
  let fields := s.header "0" s.outgoingSeqNum ++
    testReqId.toList.map fun id => (.testReqID, textBytes id)
  let counted : FixSession :=
    { s.incrementSeq with
      stats := { s.stats with heartbeatsSent := next s.stats.heartbeatsSent }
      lastHeartbeatNs := now }
  counted.encodeMessage fields capacity

/-- `send_test_request`. -/
def sendTestRequest (s : FixSession) (capacity : Nat) (testReqId : String) :
    FixSession × Except FixError (List UInt8) :=
  let fields := s.header "1" s.outgoingSeqNum ++ [(.testReqID, textBytes testReqId)]
  let counted : FixSession :=
    { s.incrementSeq with
      stats := { s.stats with testRequestsSent := next s.stats.testRequestsSent } }
  counted.encodeMessage fields capacity

/-! ## What the calls change -/

/-- The state that is set is the one that is read. -/
@[simp]
theorem getState_setState (s : FixSession) (state : SessionState) :
    (s.setState state).getState = state := u32ToState_stateToU32 state

/-- The incoming sequence numbers of one session are those of another. -/
def SameSequence (s s' : FixSession) : Prop :=
  s'.incomingSeqNum = s.incomingSeqNum ∧ s'.lastReceivedSeq = s.lastReceivedSeq ∧
    s'.config = s.config

/-- Handlers leave the numbers alone, -/
theorem sameSequence_handle (s : FixSession) (now : Nat) (handler : Handler) :
    SameSequence s (s.handle now handler) := by
  cases handler <;> exact ⟨rfl, rfl, rfl⟩

/-- and so does asking for a resend. -/
theorem sameSequence_requestResend (s : FixSession) (expectedSeq : Nat) :
    SameSequence s (s.requestResend expectedSeq) := by
  unfold requestResend
  split <;> exact ⟨rfl, rfl, rfl⟩

/-- A gap puts the session into `ResendRequested`, and nothing else does. -/
theorem getState_requestResend (s : FixSession) (expectedSeq : Nat) :
    (s.requestResend expectedSeq).getState =
      if next s.lastReceivedSeq < expectedSeq then .resendRequested else s.getState := by
  unfold requestResend
  split
  · exact getState_setState _ _
  · rfl

/-- The state after a handler. -/
theorem getState_handle (s : FixSession) (now : Nat) (handler : Handler) :
    (s.handle now handler).getState =
      match handler with
      | .logon => .loggedOn
      | .resendRequest => .loggedOn
      | .logout => .disconnected
      | _ => s.getState := by
  cases handler <;> rfl

/-- Encoding changes no more than a counter. -/
theorem encodeMessage_session (s : FixSession) (fields : List (FixTag × List UInt8))
    (capacity : Nat) :
    SameSequence s (s.encodeMessage fields capacity).1 ∧
      (s.encodeMessage fields capacity).1.state = s.state := by
  unfold encodeMessage
  split <;> exact ⟨⟨rfl, rfl, rfl⟩, rfl⟩

/-- A logon is awaited from then on, -/
theorem sendLogon_session (s : FixSession) (capacity : Nat) :
    SameSequence s (s.sendLogon capacity).1 ∧
      (s.sendLogon capacity).1.getState = .awaitingLogon := by
  obtain ⟨hsame, hstate⟩ := encodeMessage_session (setState _ .awaitingLogon) _ capacity
  exact ⟨hsame, (congrArg u32ToState hstate).trans (getState_setState _ _)⟩

/-- and a logout begins with its message. -/
theorem sendLogout_session (s : FixSession) (capacity : Nat) (reason : Option String) :
    SameSequence s (s.sendLogout capacity reason).1 ∧
      (s.sendLogout capacity reason).1.getState = .loggingOff := by
  obtain ⟨hsame, hstate⟩ := encodeMessage_session (s.incrementSeq.setState .loggingOff) _ capacity
  exact ⟨hsame, (congrArg u32ToState hstate).trans (getState_setState _ _)⟩

end FixSession

/-! ## What processing does -/

/-- The sequence number a message carries, if it can be read. -/
def FixMessage.sequenceNumber (msg : FixMessage) : Option Nat :=
  (msg.getField .msgSeqNum).bind fun f => f.asUint.toOption

/-- The message has no sequence number, or one that can be read. -/
def FixMessage.Readable (msg : FixMessage) : Prop :=
  msg.getField .msgSeqNum = none ∨ msg.sequenceNumber ≠ none

instance (msg : FixMessage) : Decidable msg.Readable := inferInstanceAs (Decidable (_ ∨ _))

/-- The handler of a message. -/
def FixMessage.handler (msg : FixMessage) : Option Handler := msg.msgTypeStr.map handlerOf

namespace FixSession

/-- The session after the sequence number of a message was checked. -/
inductive Checked (s : FixSession) (msg : FixMessage) (now : Nat) : FixSession → Prop where
  | unnumbered (number : msg.sequenceNumber = none) : Checked s msg now (s.noteReceived now)
  | inOrder (number : msg.sequenceNumber = some s.incomingSeqNum) :
      Checked s msg now
        { s.noteReceived now with
          incomingSeqNum := next s.incomingSeqNum
          lastReceivedSeq := s.incomingSeqNum }
  | outOfOrder (seqNum : Nat) (number : msg.sequenceNumber = some seqNum)
      (ne : seqNum ≠ s.incomingSeqNum) :
      Checked s msg now ((s.noteReceived now).requestResend seqNum)

/-- What a call of `process_message` does. -/
inductive ProcessEffect (s : FixSession) (msg : FixMessage) (now later : Nat) (r : Processed) :
    Prop where
  | refused (running : s.isRunning = false) (session : r.session = s) (handler : r.handler = none)
  | unreadable (number : ¬ msg.Readable) (session : r.session = s.noteReceived now)
      (handler : r.handler = none)
  | handled (checked : FixSession) (running : s.isRunning = true) (number : msg.Readable)
      (sequence : Checked s msg now checked) (handler : r.handler = msg.handler)
      (session : r.session = msg.handler.elim checked (checked.handle later))

/-- An accepted number is the expected one. -/
theorem validateSequence_cases (s : FixSession) (seqNum : Nat) :
    (seqNum = s.incomingSeqNum ∧ s.validateSequence seqNum =
        ({ s with incomingSeqNum := next s.incomingSeqNum, lastReceivedSeq := seqNum }, true)) ∨
      (seqNum ≠ s.incomingSeqNum ∧ s.validateSequence seqNum = (s, false)) := by
  unfold validateSequence
  split
  · exact Or.inr ⟨by omega, rfl⟩
  · split
    · exact Or.inr ⟨by omega, rfl⟩
    · exact Or.inl ⟨by omega, rfl⟩

/-- **What the check of a number leaves**: an error for one that cannot be read, and otherwise a
session whose numbers were checked. -/
theorem checkSequence_cases (s : FixSession) (msg : FixMessage) (now : Nat) :
    (¬ msg.Readable ∧
        (s.noteReceived now).checkSequence msg = (s.noteReceived now, .error .parseError)) ∨
      (msg.Readable ∧ ∃ checked, (s.noteReceived now).checkSequence msg = (checked, .ok ()) ∧
        Checked s msg now checked) := by
  unfold checkSequence FixMessage.Readable
  cases hfield : msg.getField .msgSeqNum with
  | none =>
      exact Or.inr ⟨Or.inl rfl, _, rfl,
        .unnumbered (by rw [FixMessage.sequenceNumber, hfield]; rfl)⟩
  | some seqField =>
      dsimp only
      have hnumber : msg.sequenceNumber = seqField.asUint.toOption := by
        rw [FixMessage.sequenceNumber, hfield, Option.bind_some]
      cases hparse : seqField.asUint with
      | error e =>
          rw [hparse] at hnumber
          exact Or.inl ⟨by simp [hnumber, Except.toOption], rfl⟩
      | ok seqNum =>
          rw [hparse] at hnumber
          refine Or.inr ⟨by simp [hnumber, Except.toOption], ?_⟩
          dsimp only
          obtain ⟨heq, hvalid⟩ | ⟨hne, hinvalid⟩ :=
            validateSequence_cases (s.noteReceived now) seqNum
          · change seqNum = s.incomingSeqNum at heq
            subst heq
            rw [hvalid]
            exact ⟨_, rfl, .inOrder hnumber⟩
          · rw [hinvalid]
            exact ⟨_, rfl, .outOfOrder seqNum hnumber hne⟩

/-- **The steps of `process_message`**: whatever the check of the sequence number said, the
message goes to its handler. -/
theorem processMessage_effect (s : FixSession) (msg : FixMessage) (now later : Nat) :
    ProcessEffect s msg now later (s.processMessage msg now later) := by
  unfold processMessage
  split
  · rename_i hrunning
    obtain ⟨hnumber, hbad⟩ | ⟨hnumber, checked, hok, hchecked⟩ := checkSequence_cases s msg now
    · rw [hbad]
      exact .unreadable hnumber rfl rfl
    · rw [hok]
      dsimp only
      cases htype : msg.msgTypeStr with
      | none =>
          have hnone : msg.handler = none := by rw [FixMessage.handler, htype]; rfl
          exact .handled checked hrunning hnumber hchecked hnone.symm (by rw [hnone]; rfl)
      | some msgType =>
          have hsome : msg.handler = some (handlerOf msgType) := by
            rw [FixMessage.handler, htype]
            rfl
          exact .handled checked hrunning hnumber hchecked hsome.symm (by rw [hsome]; rfl)
  · rename_i hstopped
    exact .refused (Bool.not_eq_true _ ▸ hstopped) rfl rfl

end FixSession

end StopTrading.Fix
