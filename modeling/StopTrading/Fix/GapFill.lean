import StopTrading.Fix.Outgoing
import StopTrading.Fix.SessionRuns

/-!
# Filling a gap

`request_resend` records the range of the missing numbers and that a resend is pending.  A run
carries beside the session the numbers of the range that are still to come.

No message of the range has a part in clearing `pending_resend`; the only thing that does is a
resend request of the other side.  So the gap is closed in time exactly in the runs in which
such a request happens to be the last message of the range, and none comes before
(`filled_iff_answered`).

### What is load-bearing

A run has to know which numbers are still missing, and the session does not: it keeps the two
ends of the range and a flag.  `GapRun.owed` counts the range down as messages with its numbers
are processed. Then the three things that matter about a message are its number, whether any are
missing behind it, and its handler; and of the handlers only that of a resend request touches the
flag.

So "in time" is stated for both sides.  Clearing the flag too early leaves a gap that nobody
waits for, and clearing it never leaves one that is always waited for; `InPlace` excludes both,
and is exact.
-/

namespace StopTrading.Fix

open Transition

namespace FixSession

/-- The number shows that others are missing. -/
def ShowsGap (s : FixSession) (seqNum : Nat) : Prop :=
  seqNum ≠ s.incomingSeqNum ∧ next s.lastReceivedSeq < seqNum

instance (s : FixSession) (seqNum : Nat) : Decidable (s.ShowsGap seqNum) :=
  inferInstanceAs (Decidable (_ ∧ _))

/-- The numbers from `resend_begin_seq` to `resend_end_seq`. -/
def resendRange (s : FixSession) : List Nat :=
  List.range' s.resendBeginSeq (s.resendEndSeq + 1 - s.resendBeginSeq)

end FixSession

/-- A session, and the numbers still missing since a gap was detected: none of them when the
last one has just been processed. -/
structure GapRun where
  session : FixSession
  owed : Option (List Nat)

namespace GapRun

/-- A new session. -/
def init (config : SessionConfig) : GapRun := ⟨.new config, none⟩

/-- After a gap was filled there is none. -/
def settle (owed : Option (List Nat)) : Option (List Nat) := if owed = some [] then none else owed

/-- The numbers still missing after a message was processed. -/
def owedAfter (r : GapRun) (msg : FixMessage) : Option (List Nat) :=
  match msg.sequenceNumber with
  | none => settle r.owed
  | some seqNum =>
      if r.session.ShowsGap seqNum then some (r.session.requestResend seqNum).resendRange
      else
        match r.owed with
        | some (n :: ns) => if seqNum = n then some ns else some (n :: ns)
        | _ => none

/-- The numbers still missing after a call. -/
def owedThrough (r : GapRun) : SessionAction → Option (List Nat)
  | .processMessage msg _ _ =>
      if r.session.isRunning ∧ msg.Readable then r.owedAfter msg else settle r.owed
  | .start _ => settle r.owed
  | .stop => settle r.owed
  | .send _ _ => settle r.owed
  | .resetSequenceNumbers => settle r.owed

/-- **One call.** -/
def step (r : GapRun) (a : SessionAction) : Option GapRun :=
  some ⟨r.session.after a, r.owedThrough a⟩

/-- **The gap is filled in time**: the resend is pending as long as a number of the range is
missing, and when the last one has been processed it is not and the session is logged on. -/
def Filled (r : GapRun) : Prop :=
  match r.owed with
  | none => True
  | some [] => r.session.pendingResend = false ∧ r.session.getState = .loggedOn
  | some (_ :: _) => r.session.pendingResend = true

/-- The handler of a message behind which these numbers are missing: that of a resend request
if they are the last ones to go, and another one if some are left. -/
def InPlace (handler : Option Handler) : Option (List Nat) → Prop
  | none => True
  | some [] => handler = some .resendRequest
  | some (_ :: _) => handler ≠ some .resendRequest

/-- **The last message of the range is a resend request**, and none before it that is processed
while numbers are missing. -/
def Answered (r : GapRun) (a : SessionAction) (_ : GapRun) : Prop :=
  ∀ msg now later, a = .processMessage msg now later → r.session.isRunning = true →
    msg.Readable → InPlace msg.handler (r.owedAfter msg)

/-- Where nothing is missing nothing is asked. -/
theorem filled_none {s : FixSession} : Filled ⟨s, none⟩ := trivial

/-- A call that is no message that is processed. -/
theorem Filled.settle {r : GapRun} (h : r.Filled) {s : FixSession}
    (hpending : s.pendingResend = r.session.pendingResend) : Filled ⟨s, GapRun.settle r.owed⟩ := by
  obtain ⟨session, owed⟩ := r
  match owed with
  | none => exact filled_none
  | some [] => exact filled_none
  | some (n :: ns) => exact hpending.trans h

/-- Without a new gap there are numbers missing, or none are any more, only if some were. -/
theorem outstanding_of_owedAfter {r : GapRun} {msg : FixMessage} {ns : List Nat}
    (hgap : ∀ n, msg.sequenceNumber = some n → ¬ r.session.ShowsGap n)
    (howed : r.owedAfter msg = some ns) : ∃ n ns', r.owed = some (n :: ns') := by
  obtain ⟨session, owed⟩ := r
  rw [owedAfter] at howed
  cases hnumber : msg.sequenceNumber with
  | none =>
      rw [hnumber] at howed
      match owed with
      | none => cases howed
      | some [] => cases howed
      | some (n :: ns') => exact ⟨n, ns', rfl⟩
  | some seqNum =>
      simp only [hnumber, if_neg (hgap seqNum hnumber)] at howed
      match owed with
      | none => cases howed
      | some [] => cases howed
      | some (n :: ns') => exact ⟨n, ns', rfl⟩

/-- **Numbers are missing, or were**: then the resend is pending until the message is handled. -/
theorem pendingResend_of_owed {r : GapRun} (h : r.Filled) {msg : FixMessage} {now : Nat}
    {checked : FixSession} (hchecked : r.session.Checked msg now checked) {ns : List Nat}
    (howed : r.owedAfter msg = some ns) : checked.pendingResend = true := by
  have hold (hgap : ∀ n, msg.sequenceNumber = some n → ¬ r.session.ShowsGap n) :
      r.session.pendingResend = true := by
    obtain ⟨n, ns', hsome⟩ := outstanding_of_owedAfter hgap howed
    rw [Filled, hsome] at h
    exact h
  cases hchecked with
  | unnumbered number =>
      refine hold fun n hn => ?_
      rw [number] at hn
      cases hn
  | inOrder number =>
      refine hold fun n hn hgap => hgap.1 ?_
      rw [number] at hn
      exact (Option.some.inj hn).symm
  | outOfOrder seqNum number ne =>
      unfold FixSession.requestResend
      split
      · rfl
      · rename_i hnogap
        refine hold fun n hn hgap => hnogap ?_
        rw [number] at hn
        obtain rfl := Option.some.inj hn
        exact hgap.2

/-- **A message that is processed** leaves the gap filled in time exactly if it is answered. -/
theorem filled_iff_of_handled {r : GapRun} (h : r.Filled) {msg : FixMessage} {now later : Nat}
    {checked : FixSession} (hchecked : r.session.Checked msg now checked) :
    Filled ⟨msg.handler.elim checked (checked.handle later), r.owedAfter msg⟩ ↔
      InPlace msg.handler (r.owedAfter msg) := by
  have hpending : (msg.handler.elim checked (checked.handle later)).pendingResend =
      if msg.handler = some .resendRequest then false else checked.pendingResend := by
    cases msg.handler with
    | none => rfl
    | some handler => cases handler <;> rfl
  cases howed : r.owedAfter msg with
  | none => exact Iff.rfl
  | some ns =>
      have htrue := pendingResend_of_owed h hchecked howed
      rw [htrue] at hpending
      cases ns with
      | nil =>
          show (_ = false ∧ _ = _) ↔ msg.handler = some .resendRequest
          rw [hpending]
          constructor
          · rintro ⟨hfalse, -⟩
            by_contra hother
            rw [if_neg hother] at hfalse
            cases hfalse
          · intro hresend
            rw [if_pos hresend, hresend]
            exact ⟨rfl, FixSession.getState_handle checked later .resendRequest⟩
      | cons n ns =>
          show _ = true ↔ msg.handler ≠ some .resendRequest
          rw [hpending]
          split
          · rename_i hresend
            exact iff_of_false nofun fun hother => hother hresend
          · rename_i hother
            exact iff_of_true rfl hother

/-- A call that is no message asks for nothing. -/
theorem answered_of_ne {r r' : GapRun} {a : SessionAction}
    (h : ∀ msg now later, a ≠ .processMessage msg now later) : r.Answered a r' :=
  fun msg now later heq => absurd heq (h msg now later)

/-- **One call** leaves the gap filled in time exactly if it is answered. -/
theorem filled_iff_answered_step {r r' : GapRun} {a : SessionAction} (h : r.Filled)
    (hstep : r.step a = some r') : r'.Filled ↔ r.Answered a r' := by
  obtain rfl := Option.some.inj hstep
  cases a with
  | start now => exact iff_of_true (h.settle rfl) (answered_of_ne (by simp))
  | stop =>
      refine iff_of_true (h.settle ?_) (answered_of_ne (by simp))
      rw [FixSession.after, FixSession.stop]
      cases r.session.config.resetOnDisconnect <;> rfl
  | send capacity m =>
      exact iff_of_true (h.settle (r.session.receiving_send capacity m).2.2.1)
        (answered_of_ne (by simp))
  | resetSequenceNumbers => exact iff_of_true (h.settle rfl) (answered_of_ne (by simp))
  | processMessage msg now later =>
      have hanswered {r' : GapRun} : r.Answered (.processMessage msg now later) r' ↔
          (r.session.isRunning = true → msg.Readable →
            InPlace msg.handler (r.owedAfter msg)) := by
        constructor
        · intro hall
          exact hall msg now later rfl
        · rintro hone _ _ _ ⟨⟩
          exact hone
      have hthrough : r.owedThrough (.processMessage msg now later) =
          if r.session.isRunning ∧ msg.Readable then r.owedAfter msg else settle r.owed := rfl
      rw [hanswered, hthrough, FixSession.after]
      have heffect := FixSession.processMessage_effect r.session msg now later
      generalize r.session.processMessage msg now later = processed at heffect
      cases heffect with
      | refused running session handler =>
          rw [session, if_neg (by simp [running])]
          refine iff_of_true (h.settle rfl) fun hrunning => ?_
          rw [running] at hrunning
          cases hrunning
      | unreadable number session handler =>
          rw [session, if_neg fun hboth => number hboth.2]
          exact iff_of_true (h.settle rfl) fun _ hreadable => absurd hreadable number
      | handled checked running number sequence handler session =>
          rw [session, if_pos ⟨running, number⟩, filled_iff_of_handled h sequence]
          exact ⟨fun hone _ _ => hone, fun hone => hone running number⟩

/-- **Gaps are filled in time** exactly in the runs in which each is answered with its last
message. -/
theorem filled_iff_answered (config : SessionConfig) (actions : List SessionAction) :
    AllSteps step Answered (init config) actions ↔ AllStates step Filled (init config) actions :=
  allSteps_iff_allStates (fun _ (h : Filled _) => h)
    (fun _ _ _ h hstep hanswered => (filled_iff_answered_step h hstep).mpr hanswered)
    (fun _ _ _ h hstep hfilled => (filled_iff_answered_step h hstep).mp hfilled) filled_none actions

/-- **A gap of one message that is sent again**: the resend is still pending. -/
theorem not_forall_filled :
    ¬ ∀ (config : SessionConfig) (actions : List SessionAction),
      AllStates step Filled (init config) actions := by
  intro h
  obtain ⟨-, -, -, -, hlast, -⟩ := h .default
    [.start 1, .processMessage (SessionRun.received "35=A|34=1|") 2 2,
      .processMessage (SessionRun.received "35=D|34=3|") 3 3,
      .processMessage (SessionRun.received "35=D|34=2|") 4 4]
  exact absurd hlast.1 (by decide +kernel)

end GapRun

end StopTrading.Fix
