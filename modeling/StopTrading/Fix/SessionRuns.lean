import StopTrading.Fix.Session
import StopTrading.Library.Transition

/-!
# Runs of a session

Beside the session a run keeps the numbers handed to handlers since the sequence numbers
were last reset, and whether a logon has been processed since the session was last
started, stopped or logged out.

* `inOrder_iff_expected` — delivery is in order, each number the expected one, exactly
  when no other number is ever handed to a handler: nothing in `process_message` holds a
  duplicate or a message beyond a gap back.
* `activeAuthenticated_iff_quiet` — the session is active without a logon exactly when, in
  a session without one, a resend request is processed (its handler stores `LoggedOn`) or a
  number beyond a gap is (`request_resend` stores `ResendRequested`).

### What is load-bearing

Neither property is lost in the handlers.  Order is lost in `process_message`, which asks for a
resend and hands the message on in the same call, so a message out of order is dispatched *as
such*: next to the number that was expected, which the run records.  `InOrder` compares the two,
and thereby becomes a condition on single calls.

Authentication is lost where a state is stored without looking at the one before.  There are two
such places that lead into an active state, and `Quiet` names them.  For the converse the numbers
have to be known to be in step (`Synced`), as a number beyond the expected one is what makes a
gap.
-/

namespace StopTrading.Fix

open Transition

/-- A call on the session. -/
inductive SessionCall where
  | start (now : Nat)
  | stop
  | processMessage (msg : FixMessage) (now later : Nat)
  | sendLogon (capacity : Nat)
  | sendLogout (capacity : Nat) (reason : Option String)
  | resetSequenceNumbers
  deriving Repr, DecidableEq

/-- A session; the numbers handed to a handler since the last reset, each with the number
that was expected; and whether there was a logon. -/
structure SessionRun where
  session : FixSession
  dispatched : List (Nat × Nat)
  authenticated : Bool

namespace SessionRun

/-- A new session. -/
def init (config : SessionConfig) : SessionRun := ⟨.new config, [], false⟩

/-- What a call of `process_message` hands to a handler. -/
def dispatchedBy (s : FixSession) (msg : FixMessage) (handler : Option Handler) :
    List (Nat × Nat) :=
  match handler, msg.sequenceNumber with
  | some _, some seqNum => [(seqNum, s.incomingSeqNum)]
  | _, _ => []

/-- Whether there was a logon, after a handler was called. -/
def authenticatedAfter (before : Bool) : Option Handler → Bool
  | some .logon => true
  | some .logout => false
  | _ => before

/-- **One call.** -/
def step (r : SessionRun) : SessionCall → Option SessionRun
  | .start now => some { r with session := r.session.start now, authenticated := false }
  | .stop =>
      some
        { session := r.session.stop
          dispatched := if r.session.config.resetOnDisconnect then [] else r.dispatched
          authenticated := false }
  | .processMessage msg now later =>
      let processed := r.session.processMessage msg now later
      some
        { session := processed.session
          dispatched := r.dispatched ++ dispatchedBy r.session msg processed.handler
          authenticated := authenticatedAfter r.authenticated processed.handler }
  | .sendLogon capacity => some { r with session := (r.session.sendLogon capacity).1 }
  | .sendLogout capacity reason =>
      some { r with session := (r.session.sendLogout capacity reason).1 }
  | .resetSequenceNumbers =>
      some { r with session := r.session.resetSequenceNumbers, dispatched := [] }

/-! ## Delivery in order -/

/-- **Delivery is in order**: the numbers handed to handlers increase, and each was the
expected one. -/
structure InOrder (r : SessionRun) : Prop where
  /-- numbers increase -/
  increasing : r.dispatched.Pairwise fun d d' => d.1 < d'.1
  /-- and are the expected ones -/
  expected : ∀ d ∈ r.dispatched, d.1 = d.2

/-- **The call dispatches the expected number**, if it dispatches any. -/
def Expected (r : SessionRun) (c : SessionCall) (_ : SessionRun) : Prop :=
  ∀ msg now later, c = .processMessage msg now later → r.session.isRunning = true →
    msg.handler ≠ none → ∀ seqNum, msg.sequenceNumber = some seqNum →
      seqNum = r.session.incomingSeqNum

/-- The call does not make the expected number wrap around. -/
def NoWrap (r : SessionRun) (c : SessionCall) (_ : SessionRun) : Prop :=
  ∀ msg now later, c = .processMessage msg now later →
    msg.sequenceNumber = some r.session.incomingSeqNum → r.session.incomingSeqNum + 1 < 2 ^ 64

/-- The invariant of runs in order. -/
structure Delivered (r : SessionRun) : Prop where
  /-- delivery was in order -/
  inOrder : r.InOrder
  /-- and the expected number is beyond what was delivered -/
  below : ∀ d ∈ r.dispatched, d.1 < r.session.incomingSeqNum

/-- A call that dispatches nothing and keeps the expected number, or raises it. -/
theorem Delivered.mono {r r' : SessionRun} (h : r.Delivered)
    (hdispatched : r'.dispatched = r.dispatched)
    (hincoming : r.session.incomingSeqNum ≤ r'.session.incomingSeqNum) : r'.Delivered := by
  refine ⟨⟨?_, ?_⟩, ?_⟩ <;> rw [hdispatched]
  · exact h.inOrder.increasing
  · exact h.inOrder.expected
  · exact fun d hd => lt_of_lt_of_le (h.below d hd) hincoming

/-- A call that dispatches the expected number and raises it. -/
theorem Delivered.concat {r r' : SessionRun} (h : r.Delivered)
    (hdispatched : r'.dispatched =
      r.dispatched ++ [(r.session.incomingSeqNum, r.session.incomingSeqNum)])
    (hraised : r.session.incomingSeqNum < r'.session.incomingSeqNum) : r'.Delivered := by
  refine ⟨⟨?_, ?_⟩, ?_⟩ <;> rw [hdispatched]
  · refine List.pairwise_append.mpr ⟨h.inOrder.increasing, List.pairwise_singleton _ _, ?_⟩
    intro e he e' he'
    rw [List.mem_singleton.mp he']
    exact h.below e he
  · rw [List.forall_mem_append]
    exact ⟨h.inOrder.expected, List.forall_mem_singleton.mpr rfl⟩
  · rw [List.forall_mem_append]
    exact ⟨fun e he => (h.below e he).trans hraised, List.forall_mem_singleton.mpr hraised⟩

/-- Nothing was dispatched. -/
theorem delivered_of_nil {r : SessionRun} (h : r.dispatched = []) : r.Delivered := by
  refine ⟨⟨?_, ?_⟩, ?_⟩ <;> rw [h]
  · exact List.Pairwise.nil
  · exact nofun
  · exact nofun

/-- The number expected after one was checked. -/
theorem incomingSeqNum_of_checked {s checked : FixSession} {msg : FixMessage} {now : Nat}
    (h : s.Checked msg now checked)
    (hwrap : msg.sequenceNumber = some s.incomingSeqNum → s.incomingSeqNum + 1 < 2 ^ 64) :
    s.incomingSeqNum ≤ checked.incomingSeqNum ∧
      (msg.sequenceNumber = some s.incomingSeqNum →
        s.incomingSeqNum < checked.incomingSeqNum) := by
  cases h with
  | unnumbered number => exact ⟨le_rfl, fun h => by rw [number] at h; cases h⟩
  | inOrder number =>
      have hlt := hwrap number
      have hnext : next s.incomingSeqNum = s.incomingSeqNum + 1 := Nat.mod_eq_of_lt hlt
      show _ ≤ next _ ∧ (_ → _ < next _)
      rw [hnext]
      exact ⟨Nat.le_succ _, fun _ => Nat.lt_succ_self _⟩
  | outOfOrder seqNum number ne =>
      have hsame := (FixSession.sameSequence_requestResend (s.noteReceived now) seqNum).1
      refine ⟨hsame.ge, fun h => absurd ?_ ne⟩
      rw [number] at h
      exact Option.some.inj h

/-- What is dispatched, if anything is: the number of the message, next to the expected one. -/
theorem dispatchedBy_cases (s : FixSession) (msg : FixMessage) (handler : Option Handler) :
    dispatchedBy s msg handler = [] ∨ handler ≠ none ∧ ∃ seqNum,
      msg.sequenceNumber = some seqNum ∧
        dispatchedBy s msg handler = [(seqNum, s.incomingSeqNum)] := by
  unfold dispatchedBy
  split
  · rename_i seqNum hseq
    exact Or.inr ⟨nofun, seqNum, hseq, rfl⟩
  · exact Or.inl rfl

/-- Processing a message, as long as the numbers do not wrap. -/
theorem delivered_processMessage {r r' : SessionRun} {msg : FixMessage} {now later : Nat}
    (h : r.Delivered) (hstep : r.step (.processMessage msg now later) = some r')
    (hwrap : msg.sequenceNumber = some r.session.incomingSeqNum →
      r.session.incomingSeqNum + 1 < 2 ^ 64)
    (hexpected : r.session.isRunning = true → msg.handler ≠ none →
      ∀ seqNum, msg.sequenceNumber = some seqNum → seqNum = r.session.incomingSeqNum) :
    r'.Delivered := by
  cases hstep
  have heffect := FixSession.processMessage_effect r.session msg now later
  generalize r.session.processMessage msg now later = processed at heffect
  cases heffect with
  | refused running session handler | unreadable number session handler =>
      refine h.mono ?_ (congrArg FixSession.incomingSeqNum session).ge
      show r.dispatched ++ dispatchedBy r.session msg processed.handler = r.dispatched
      rw [handler]
      exact List.append_nil _
  | handled checked running number sequence handler session =>
      have hsame : FixSession.SameSequence checked processed.session := by
        rw [session]
        cases msg.handler with
        | none => exact ⟨rfl, rfl, rfl⟩
        | some handler => exact FixSession.sameSequence_handle checked later handler
      obtain ⟨hle, hlt⟩ := incomingSeqNum_of_checked sequence hwrap
      obtain hnone | ⟨hhandler, seqNum, hnumber, hone⟩ :=
        dispatchedBy_cases r.session msg processed.handler
      · refine h.mono ?_ (hle.trans hsame.1.ge)
        show r.dispatched ++ dispatchedBy r.session msg processed.handler = r.dispatched
        rw [hnone]
        exact List.append_nil _
      · -- a number is dispatched, so it is the expected one
        obtain rfl := hexpected running (handler ▸ hhandler) seqNum hnumber
        exact h.concat (congrArg (r.dispatched ++ ·) hone) (lt_of_lt_of_le (hlt hnumber) hsame.1.ge)

/-- A call that dispatches nothing but the expected number keeps the order. -/
theorem delivered_step {r r' : SessionRun} {c : SessionCall} (h : r.Delivered)
    (hstep : r.step c = some r') (hwrap : r.NoWrap c r') (hexpected : r.Expected c r') :
    r'.Delivered := by
  cases c with
  | start now =>
      cases hstep
      exact h.mono rfl le_rfl
  | stop =>
      cases hstep
      cases hreset : r.session.config.resetOnDisconnect with
      | true => exact delivered_of_nil (by simp)
      | false =>
          have hsame : r.session.stop.incomingSeqNum = r.session.incomingSeqNum := by
            simp [FixSession.stop, FixSession.setState, hreset]
          exact h.mono (by simp) hsame.ge
  | processMessage msg now later =>
      exact delivered_processMessage h hstep (hwrap msg now later rfl)
        (hexpected msg now later rfl)
  | sendLogon capacity =>
      cases hstep
      exact h.mono rfl (FixSession.sendLogon_session r.session capacity).1.1.ge
  | sendLogout capacity reason =>
      cases hstep
      exact h.mono rfl (FixSession.sendLogout_session r.session capacity reason).1.1.ge
  | resetSequenceNumbers =>
      cases hstep
      exact delivered_of_nil rfl

/-- A number out of order is dispatched as such. -/
theorem expected_of_inOrder {r r' : SessionRun} {c : SessionCall} (hstep : r.step c = some r')
    (h : r'.InOrder) : r.Expected c r' := by
  rintro msg now later rfl hrunning hhandler seqNum hnumber
  cases hstep
  have heffect := FixSession.processMessage_effect r.session msg now later
  have hexpected := h.expected
  dsimp only at hexpected
  cases heffect with
  | refused running => rw [running] at hrunning; cases hrunning
  | unreadable number => exact absurd (Or.inr (by simp [hnumber])) number
  | handled checked running number sequence handler session =>
      refine hexpected (seqNum, r.session.incomingSeqNum) (List.mem_append_right _ ?_)
      obtain ⟨handled, hsome⟩ := Option.ne_none_iff_exists'.mp hhandler
      have hdispatched : dispatchedBy r.session msg (some handled) =
          [(seqNum, r.session.incomingSeqNum)] := by simp only [dispatchedBy, hnumber]
      rw [handler, hsome, hdispatched]
      exact List.mem_singleton.mpr rfl

/-- **Delivery in order**: in a run that never wraps the expected number around, delivery is
in order throughout if and only if every number handed to a handler is the expected one. -/
theorem inOrder_iff_expected (config : SessionConfig) (calls : List SessionCall)
    (hwrap : AllSteps step NoWrap (init config) calls) :
    AllStates step InOrder (init config) calls ↔ AllSteps step Expected (init config) calls :=
  (allSteps_iff_allStates_of_valid (fun _ (h : Delivered _) => h.inOrder)
    (fun _ _ _ h hstep hwrap hexpected => delivered_step h hstep hwrap hexpected)
    (fun _ _ _ _ hstep _ h => expected_of_inOrder hstep h)
    (delivered_of_nil rfl) hwrap).symm

/-- The message that decoding a text gives. -/
def received (text : String) : FixMessage :=
  match (FixCodec.new.decode (bytesOf text)).2 with
  | .ok msg => msg
  | .error _ => .new []

/-- A logon and an order. -/
def logonAndOrder : List SessionCall :=
  [.start 1, .processMessage (received "35=A|34=1|") 2 2,
    .processMessage (received "35=D|34=2|") 3 3]

/-- A logon and an order in sequence are delivered in order. -/
theorem inOrder_logonAndOrder : AllStates step InOrder (init .default) logonAndOrder := by
  have hwrap : AllSteps step NoWrap (init .default) logonAndOrder := by
    refine ⟨nofun, ?_, ?_, trivial⟩
    · rintro _ _ _ ⟨⟩ -
      decide +kernel
    · rintro _ _ _ ⟨⟩ -
      decide +kernel
  refine (inOrder_iff_expected .default logonAndOrder hwrap).mpr ⟨nofun, ?_, ?_, trivial⟩
  · rintro _ _ _ ⟨⟩ - - seqNum hnumber
    have hone : (received "35=A|34=1|").sequenceNumber = some 1 := by decide +kernel
    rw [hone] at hnumber
    exact (Option.some.inj hnumber).symm
  · rintro _ _ _ ⟨⟩ - - seqNum hnumber
    have htwo : (received "35=D|34=2|").sequenceNumber = some 2 := by decide +kernel
    rw [htwo] at hnumber
    obtain rfl := Option.some.inj hnumber
    decide +kernel

/-- **A duplicate is delivered twice.** -/
theorem not_forall_inOrder :
    ¬ ∀ (config : SessionConfig) (calls : List SessionCall),
      AllStates step InOrder (init config) calls := by
  intro h
  obtain ⟨-, -, -, hlast, -⟩ := h .default
    [.start 1, .processMessage (received "35=D|34=1|") 2 2,
      .processMessage (received "35=D|34=1|") 3 3]
  exact absurd (hlast.expected (1, 2) (by decide +kernel)) (by decide)

/-! ## Activity and authentication -/

/-- **An active session is authenticated.** -/
def ActiveAuthenticated (r : SessionRun) : Prop :=
  r.session.getState.isActive = true → r.authenticated = true

/-- **The call is quiet**: without a logon, a message that is processed and neither logs on
nor out is no resend request, and its number is not beyond the expected one. -/
def Quiet (r : SessionRun) (c : SessionCall) (_ : SessionRun) : Prop :=
  ∀ msg now later, c = .processMessage msg now later → r.session.isRunning = true →
    r.authenticated = false → msg.Readable → msg.handler ≠ some .logon →
      msg.handler ≠ some .logout →
        msg.handler ≠ some .resendRequest ∧
          ∀ seqNum, msg.sequenceNumber = some seqNum → seqNum ≤ r.session.incomingSeqNum

/-- The expected number follows the last one received. -/
def Synced (s : FixSession) : Prop := s.incomingSeqNum = next s.lastReceivedSeq

/-- Numbers that stay are in step, -/
theorem Synced.of_same {s s' : FixSession} (h : Synced s) (hsame : s.SameSequence s') :
    Synced s' := by
  rw [Synced, hsame.1, hsame.2.1]
  exact h

/-- and so are numbers that were checked. -/
theorem synced_of_checked {s checked : FixSession} {msg : FixMessage} {now : Nat}
    (h : Synced s) (hchecked : s.Checked msg now checked) : Synced checked := by
  cases hchecked with
  | unnumbered number => exact h
  | inOrder number => rfl
  | outOfOrder seqNum number ne =>
      exact Synced.of_same (s := s.noteReceived now) h (FixSession.sameSequence_requestResend _ _)

/-- The invariant: the numbers are in step, and an active session is authenticated. -/
structure Authenticated (r : SessionRun) : Prop where
  /-- the numbers are in step -/
  synced : Synced r.session
  /-- and an active session has had a logon -/
  active : r.ActiveAuthenticated

/-- The state after the number of a message was checked. -/
theorem getState_of_checked {s checked : FixSession} {msg : FixMessage} {now : Nat}
    (hsynced : Synced s) (h : s.Checked msg now checked) :
    checked.getState = s.getState ∧
        (∀ seqNum, msg.sequenceNumber = some seqNum → seqNum ≤ s.incomingSeqNum) ∨
      checked.getState = .resendRequested ∧
        ∃ seqNum, msg.sequenceNumber = some seqNum ∧ s.incomingSeqNum < seqNum := by
  cases h with
  | unnumbered number => exact Or.inl ⟨rfl, fun seqNum h => by rw [number] at h; cases h⟩
  | inOrder number =>
      refine Or.inl ⟨rfl, fun seqNum h => ?_⟩
      rw [number] at h
      exact (Option.some.inj h).ge
  | outOfOrder seqNum number ne =>
      rw [FixSession.getState_requestResend]
      -- a number that is not the expected one is a gap if it is larger
      have hexpected : next (s.noteReceived now).lastReceivedSeq = s.incomingSeqNum := hsynced.symm
      rw [hexpected]
      by_cases hgap : s.incomingSeqNum < seqNum
      · exact Or.inr ⟨if_pos hgap, seqNum, number, hgap⟩
      · refine Or.inl ⟨if_neg hgap, fun other h => ?_⟩
        rw [number] at h
        obtain rfl := Option.some.inj h
        exact not_lt.mp hgap

/-- When a message is quiet, spelled out. -/
theorem quiet_processMessage {r r' : SessionRun} {msg : FixMessage} {now later : Nat} :
    r.Quiet (.processMessage msg now later) r' ↔
      (r.session.isRunning = true → r.authenticated = false → msg.Readable →
        msg.handler ≠ some .logon → msg.handler ≠ some .logout →
          msg.handler ≠ some .resendRequest ∧
            ∀ seqNum, msg.sequenceNumber = some seqNum → seqNum ≤ r.session.incomingSeqNum) := by
  constructor
  · intro h
    exact h msg now later rfl
  · rintro h _ _ _ ⟨⟩
    exact h

/-- A message without a handler, or with one that leaves the state alone: only a gap makes the
session active. -/
theorem active_iff_quiet_of_other {r r' : SessionRun} {msg : FixMessage} {now later : Nat}
    {checked : FixSession} (h : r.Authenticated) (running : r.session.isRunning = true)
    (number : msg.Readable) (sequence : r.session.Checked msg now checked)
    (hstate : r'.session.getState = checked.getState)
    (hauth : r'.authenticated = r.authenticated)
    (hlogon : msg.handler ≠ some .logon) (hlogout : msg.handler ≠ some .logout)
    (hresend : msg.handler ≠ some .resendRequest) :
    r'.ActiveAuthenticated ↔ r.Quiet (.processMessage msg now later) r' := by
  rw [quiet_processMessage, ActiveAuthenticated, hstate, hauth]
  obtain ⟨hsame, hnogap⟩ | ⟨hresent, seqNum, hnumber, hgap⟩ := getState_of_checked h.synced sequence
  · rw [hsame]
    exact iff_of_true h.active fun _ _ _ _ _ => ⟨hresend, hnogap⟩
  · rw [hresent]
    constructor
    · intro hactive _ hnot
      rw [hactive rfl] at hnot
      cases hnot
    · intro hquiet _
      cases hauthenticated : r.authenticated with
      | true => rfl
      | false =>
          have hle := (hquiet running hauthenticated number hlogon hlogout).2 seqNum hnumber
          exact absurd hgap (not_lt.mpr hle)

/-- A resend request makes the session active, whoever asks. -/
theorem active_iff_quiet_of_resend {r r' : SessionRun} {msg : FixMessage} {now later : Nat}
    (running : r.session.isRunning = true) (number : msg.Readable)
    (hactive : r'.session.getState.isActive = true) (hauth : r'.authenticated = r.authenticated)
    (hresend : msg.handler = some .resendRequest) :
    r'.ActiveAuthenticated ↔ r.Quiet (.processMessage msg now later) r' := by
  rw [quiet_processMessage, ActiveAuthenticated, hauth, hresend]
  constructor
  · intro hauthenticated _ hnot
    rw [hauthenticated hactive] at hnot
    cases hnot
  · intro hquiet _
    by_contra hnot
    exact (hquiet running (Bool.not_eq_true _ ▸ hnot) number nofun nofun).1 rfl

/-- **One message**: it leaves an active session authenticated exactly if it is quiet. -/
theorem active_iff_quiet {r r' : SessionRun} {msg : FixMessage} {now later : Nat}
    (h : r.Authenticated) (hstep : r.step (.processMessage msg now later) = some r') :
    Synced r'.session ∧ (r'.ActiveAuthenticated ↔ r.Quiet (.processMessage msg now later) r') := by
  cases hstep
  have heffect := FixSession.processMessage_effect r.session msg now later
  generalize r.session.processMessage msg now later = processed at heffect
  cases heffect with
  | refused running session handler =>
      rw [session, handler, quiet_processMessage]
      refine ⟨h.synced, iff_of_true h.active fun hrunning => ?_⟩
      rw [running] at hrunning
      cases hrunning
  | unreadable number session handler =>
      rw [session, handler, quiet_processMessage]
      exact ⟨h.synced, iff_of_true h.active fun _ _ hreadable => absurd hreadable number⟩
  | handled checked running number sequence handler session =>
      have hchecked := synced_of_checked h.synced sequence
      rw [session, handler]
      cases hhandler : msg.handler with
      | none =>
          refine ⟨hchecked,
            active_iff_quiet_of_other h running number sequence rfl rfl ?_ ?_ ?_⟩ <;>
            rw [hhandler] <;> nofun
      | some handled =>
          refine ⟨hchecked.of_same (FixSession.sameSequence_handle checked later handled), ?_⟩
          have hstate := FixSession.getState_handle checked later handled
          cases handled with
          | logon =>
              rw [quiet_processMessage]
              exact iff_of_true (fun _ => rfl) fun _ _ _ hne => absurd hhandler hne
          -- the session is left, and is not active any more
          | logout =>
              rw [quiet_processMessage]
              refine iff_of_true (fun hactive => ?_) fun _ _ _ _ hne => absurd hhandler hne
              change (checked.handle later .logout).getState.isActive = true at hactive
              rw [hstate] at hactive
              cases hactive
          | resendRequest =>
              refine active_iff_quiet_of_resend running number ?_ rfl hhandler
              exact congrArg SessionState.isActive hstate
          | heartbeat | testRequest | reject | applicationMessage =>
              refine active_iff_quiet_of_other h running number sequence hstate rfl ?_ ?_ ?_ <;>
                rw [hhandler] <;> nofun

/-- A new session is not active. -/
theorem authenticated_init (config : SessionConfig) : (init config).Authenticated :=
  ⟨rfl, fun hactive => by cases hactive⟩

/-- A call that receives nothing. -/
theorem authenticated_of_inactive {r r' : SessionRun} (h : r.Authenticated)
    (hsame : r.session.SameSequence r'.session) (hinactive : r'.session.getState.isActive = false) :
    r'.Authenticated :=
  ⟨h.synced.of_same hsame, fun hactive => by rw [hinactive] at hactive; cases hactive⟩

/-- A quiet call activates nobody who has not logged on. -/
theorem authenticated_step {r r' : SessionRun} {c : SessionCall} (h : r.Authenticated)
    (hstep : r.step c = some r') (hquiet : r.Quiet c r') : r'.Authenticated := by
  cases c with
  | start now =>
      cases hstep
      exact authenticated_of_inactive h ⟨rfl, rfl, rfl⟩ rfl
  | stop =>
      cases hstep
      have hstate : r.session.stop.getState = .terminated := FixSession.getState_setState _ _
      refine ⟨?_, fun hactive => ?_⟩
      · show Synced r.session.stop
        unfold FixSession.stop
        cases r.session.config.resetOnDisconnect with
        | true => rfl
        | false => exact h.synced
      · change r.session.stop.getState.isActive = true at hactive
        rw [hstate] at hactive
        cases hactive
  | processMessage msg now later =>
      obtain ⟨hsynced, hiff⟩ := active_iff_quiet h hstep
      exact ⟨hsynced, hiff.mpr hquiet⟩
  | sendLogon capacity =>
      cases hstep
      obtain ⟨hsame, hstate⟩ := FixSession.sendLogon_session r.session capacity
      exact authenticated_of_inactive h hsame (by rw [hstate]; rfl)
  | sendLogout capacity reason =>
      cases hstep
      obtain ⟨hsame, hstate⟩ := FixSession.sendLogout_session r.session capacity reason
      exact authenticated_of_inactive h hsame (by rw [hstate]; rfl)
  | resetSequenceNumbers =>
      cases hstep
      exact ⟨rfl, h.active⟩

/-- **Authentication**: in every state of a run an active session has had a logon since it was
last started, stopped or logged out, if and only if every call is quiet. -/
theorem activeAuthenticated_iff_quiet (config : SessionConfig) (calls : List SessionCall) :
    AllStates step ActiveAuthenticated (init config) calls ↔
      AllSteps step Quiet (init config) calls :=
  (allSteps_iff_allStates (fun _ (h : Authenticated _) => h.active)
    (fun _ _ _ h hstep hquiet => authenticated_step h hstep hquiet)
    (fun r c r' h hstep hactive => by
      cases c with
      | processMessage msg now later => exact (active_iff_quiet h hstep).2.mp hactive
      | _ => exact nofun)
    (authenticated_init config) calls).symm

/-- **A session that anybody activates**: the first message is a resend request. -/
theorem not_forall_activeAuthenticated :
    ¬ ∀ (config : SessionConfig) (calls : List SessionCall),
      AllStates step ActiveAuthenticated (init config) calls := by
  intro h
  obtain ⟨-, -, hlast, -⟩ := h .default [.start 1, .processMessage (received "35=2|34=1|") 2 2]
  exact absurd (hlast (by decide +kernel)) (by decide +kernel)

end SessionRun

end StopTrading.Fix
