import StopTrading.Safety.CircuitBreaker

/-!
# A tripped breaker stays shut

`is_trading_allowed` is not only a question: it moves an open breaker whose cooldown is over
to half open.  Here a breaker is watched over a run of calls.  The watch keeps the times of
the trips since the last reset and the last reading of the clock, and `ShutBy` says how far
the breaker has come since one of the trips: it is open and stays open to the end of that
trip's cooldown, or the cooldown is over.  From it every answer of a run follows
(`allSteps_staysShut`).

### What is load-bearing

Three things can happen to the state of a breaker in a call that is not a reset, and `Effect`
lists them.  The watch adds the trip of the call to those it has, and `ShutBy` is kept for all of
them: a new trip opens the breaker with a cooldown that ends after that of every earlier trip
(`Inv.trips`), no event leaves things as they are, and a recovery needs the reading of the clock
to be past the end.

Both parts of `Ordinary` are used there and nowhere else.  If the clock went back, a later trip
could end the cooldown of an earlier one too soon, and an end that does not fit would be in the
past.

### Design decisions

A watch may start at any breaker, open or shut, with no trips to its account.  Whatever happened
before is then forgotten, and a reset in the middle of a run is nothing special: it starts the
account anew.
-/

namespace StopTrading.Safety

open Transition

namespace CircuitBreaker

/-- The length of the cooldown in nanoseconds. -/
def cooldownNs (b : CircuitBreaker) : Nat := b.config.cooldownMs * 1000000

/-- The readings of the clock a call may take, in their order. -/
def Call.readings : Call → List Nat
  | .updateEquity _ clock | .recordOrderRejection clock => [clock.eventNs, clock.nowNs]
  | .recordApiError windowNs clock => [windowNs, clock.eventNs, clock.nowNs]
  | .isTradingAllowed nowNs | .reset nowNs => [nowNs]
  | .recordOrderSubmission | .disable | .enable => []

/-- The time at which a call trips the breaker, when it does. -/
def tripTime (b : CircuitBreaker) : Call → Option Nat
  | .updateEquity equity clock => (b.updateEquity equity clock).2.map fun _ => clock.nowNs
  | .recordApiError windowNs clock => (b.recordApiError windowNs clock).2.map fun _ => clock.nowNs
  | .recordOrderRejection clock => (b.recordOrderRejection clock).2.map fun _ => clock.nowNs
  | .recordOrderSubmission | .isTradingAllowed _ | .reset _ | .disable | .enable => none

/-! ## What a call does to the state -/

/-- The state and the end of the cooldown are as they were. -/
structure Keeps (b b' : CircuitBreaker) : Prop where
  state : b'.state = b.state
  cooldownEnd : b'.cooldownEndNs = b.cooldownEndNs

/-- The breaker has been opened at a time. -/
structure OpenedAt (b b' : CircuitBreaker) (t : Nat) : Prop where
  state : b'.state = .open
  /-- The end is counted in 64 bits. -/
  cooldownEnd : b'.cooldownEndNs = (t + b.cooldownNs) % 2 ^ 64

/-- **What a call that records something does**: with an event it opens the breaker, without
one it keeps the state. -/
def Records (b : CircuitBreaker) (clock : Clock) (r : CircuitBreaker × Option BreakerEvent) :
    Prop :=
  r.1.config = b.config ∧
    if r.2.isSome = true then OpenedAt b r.1 clock.nowNs else Keeps b r.1

/-- A trip opens the breaker, -/
theorem records_trip {b b' : CircuitBreaker} (hconfig : b'.config = b.config)
    (breakerType : BreakerType) (triggerValue thresholdValue : Nat) (clock : Clock) :
    Records b clock ((b'.trip breakerType triggerValue thresholdValue clock).1,
      some (b'.trip breakerType triggerValue thresholdValue clock).2) := by
  refine ⟨hconfig, rfl, ?_⟩
  rw [cooldownNs, ← hconfig]
  rfl

/-- and each of the three calls that record something -/
theorem records_updateEquity (b : CircuitBreaker) (equity : Int) (clock : Clock) :
    Records b clock (b.updateEquity equity clock) := by
  unfold updateEquity
  dsimp only
  split_ifs
  · exact ⟨rfl, rfl, rfl⟩
  · exact records_trip (by rfl) _ _ _ clock
  · exact ⟨rfl, rfl, rfl⟩
  · exact ⟨rfl, rfl, rfl⟩

/-- either trips the breaker -/
theorem records_recordApiError (b : CircuitBreaker) (windowNs : Nat) (clock : Clock) :
    Records b clock (b.recordApiError windowNs clock) := by
  unfold recordApiError
  dsimp only
  split_ifs
  · exact ⟨rfl, rfl, rfl⟩
  · exact ⟨rfl, rfl, rfl⟩
  · exact records_trip (by rfl) _ _ _ clock
  · exact ⟨rfl, rfl, rfl⟩

/-- or keeps its state. -/
theorem records_recordOrderRejection (b : CircuitBreaker) (clock : Clock) :
    Records b clock (b.recordOrderRejection clock) := by
  unfold recordOrderRejection
  dsimp only
  split_ifs
  · exact ⟨rfl, rfl, rfl⟩
  · exact records_trip (by rfl) _ _ _ clock
  · exact ⟨rfl, rfl, rfl⟩
  · exact ⟨rfl, rfl, rfl⟩

/-- The call moves an open breaker to half open. -/
structure Recovers (b b' : CircuitBreaker) (nowNs : Nat) : Prop where
  autoRecovery : b.config.autoRecovery = true
  /-- The cooldown is over, -/
  expired : b.cooldownEndNs ≤ nowNs
  /-- and only the state changes. -/
  eq : b' = { b with state := .halfOpen }

/-- The question changes nothing, or it moves the breaker to half open. -/
theorem isTradingAllowed_cases (b : CircuitBreaker) (nowNs : Nat) :
    (b.isTradingAllowed nowNs).1 = b ∨ Recovers b (b.isTradingAllowed nowNs).1 nowNs := by
  unfold isTradingAllowed
  split
  · exact Or.inl rfl
  · cases b.state with
    | closed | halfOpen | cooldown => exact Or.inl rfl
    | «open» =>
        dsimp only
        split
        · rename_i hover
          have hexpired : b.cooldownEndNs = 0 ∨ nowNs ≥ b.cooldownEndNs := of_decide_eq_true hover.1
          exact Or.inr ⟨hover.2, by omega, rfl⟩
        · exact Or.inl rfl

/-- The configuration is never changed. -/
theorem config_apply (b : CircuitBreaker) (c : Call) : (b.apply c).config = b.config := by
  cases c with
  | updateEquity equity clock => exact (records_updateEquity b equity clock).1
  | recordApiError windowNs clock => exact (records_recordApiError b windowNs clock).1
  | recordOrderRejection clock => exact (records_recordOrderRejection b clock).1
  | isTradingAllowed nowNs =>
      rcases isTradingAllowed_cases b nowNs with hsame | hrecovers
      · rw [apply, hsame]
      · rw [apply, hrecovers.eq]
  | recordOrderSubmission | reset | disable | enable => rfl

/-- **What a call does that is not a reset**: it trips the breaker, it keeps the state, or it
moves an open breaker to half open. -/
inductive Effect (b : CircuitBreaker) (c : Call) : Prop where
  | trips (t : Nat) (tripTime : b.tripTime c = some t) (reading : t ∈ c.readings)
      (opened : OpenedAt b (b.apply c) t)
  | keeps (tripTime : b.tripTime c = none) (keeps : Keeps b (b.apply c))
  | recovers (nowNs : Nat) (tripTime : b.tripTime c = none) (reading : nowNs ∈ c.readings)
      (recovers : Recovers b (b.apply c) nowNs)

/-- A call that records something has one of the first two effects. -/
theorem Records.effect {b : CircuitBreaker} {c : Call} {clock : Clock}
    {r : CircuitBreaker × Option BreakerEvent} (h : Records b clock r)
    (happly : b.apply c = r.1) (htrip : b.tripTime c = r.2.map fun _ => clock.nowNs)
    (hreading : clock.nowNs ∈ c.readings) : Effect b c := by
  obtain ⟨-, hrecords⟩ := h
  cases hevent : r.2 with
  | none =>
      rw [hevent] at hrecords htrip
      exact .keeps htrip (happly ▸ hrecords)
  | some event =>
      rw [hevent] at hrecords htrip
      exact .trips clock.nowNs htrip hreading (happly ▸ hrecords)

/-- **Every call but a reset** has one of the three effects. -/
theorem effect_apply (b : CircuitBreaker) {c : Call} (hreset : ∀ nowNs, c ≠ .reset nowNs) :
    Effect b c := by
  cases c with
  | updateEquity equity clock =>
      exact (records_updateEquity b equity clock).effect rfl rfl (by simp [Call.readings])
  | recordApiError windowNs clock =>
      exact (records_recordApiError b windowNs clock).effect rfl rfl (by simp [Call.readings])
  | recordOrderRejection clock =>
      exact (records_recordOrderRejection b clock).effect rfl rfl (by simp [Call.readings])
  | isTradingAllowed nowNs =>
      rcases isTradingAllowed_cases b nowNs with hsame | hrecovers
      · exact .keeps rfl ⟨congrArg state hsame, congrArg cooldownEndNs hsame⟩
      · exact .recovers nowNs rfl (List.mem_singleton_self nowNs) hrecovers
  | reset nowNs => exact absurd rfl (hreset nowNs)
  | recordOrderSubmission | disable | enable => exact .keeps rfl ⟨rfl, rfl⟩

end CircuitBreaker

/-! ## Watching a breaker -/

/-- A breaker, the times of its trips since the last reset, and the last reading of the
clock. -/
structure BreakerWatch where
  breaker : CircuitBreaker
  trips : List Nat
  nowNs : Nat
  deriving Repr, DecidableEq

namespace BreakerWatch

open CircuitBreaker

/-- The trips a call adds; a reset forgets them. -/
def tripsAfter (w : BreakerWatch) : Call → List Nat
  | .reset _ => []
  | c => w.trips ++ (w.breaker.tripTime c).toList

/-- One call. -/
def step (w : BreakerWatch) (c : Call) : Option BreakerWatch :=
  some ⟨w.breaker.apply c, w.tripsAfter c, c.readings.getLastD w.nowNs⟩

/-- **The clock does not go back, and the end of a cooldown fits in 64 bits.** -/
structure Ordinary (w : BreakerWatch) (c : Call) (_ : BreakerWatch) : Prop where
  /-- The readings of a call come in order, after all before them. -/
  clock : List.Pairwise (· ≤ ·) (w.nowNs :: c.readings)
  fits : ∀ t ∈ w.breaker.tripTime c, t + w.breaker.cooldownNs < 2 ^ 64

instance (w : BreakerWatch) (c : Call) (w' : BreakerWatch) : Decidable (Ordinary w c w') :=
  decidable_of_iff
    (List.Pairwise (· ≤ ·) (w.nowNs :: c.readings) ∧
      ∀ t ∈ w.breaker.tripTime c, t + w.breaker.cooldownNs < 2 ^ 64)
    ⟨fun h => ⟨h.1, h.2⟩, fun h => ⟨h.clock, h.fits⟩⟩

/-- **A tripped breaker stays shut**: the answer is no while the cooldown of some trip lasts,
and without automatic recovery it is no after any trip. -/
def StaysShut (w : BreakerWatch) (c : Call) (_ : BreakerWatch) : Prop :=
  ∀ nowNs, c = .isTradingAllowed nowNs →
    ((∃ t ∈ w.trips, nowNs < t + w.breaker.cooldownNs) ∨
      (w.breaker.config.autoRecovery = false ∧ w.trips ≠ [])) →
    (w.breaker.isTradingAllowed nowNs).2 = false

/-- How far the breaker has come since a trip at `t`. -/
inductive ShutBy (w : BreakerWatch) (t : Nat) : Prop where
  | cooling (state : w.breaker.state = .open)
      (cooldownEnd : t + w.breaker.cooldownNs ≤ w.breaker.cooldownEndNs)
  | passed (autoRecovery : w.breaker.config.autoRecovery = true)
      (expired : t + w.breaker.cooldownNs ≤ w.nowNs)

/-- The invariant: no trip lies in the future, and the breaker is shut by each of them. -/
structure Inv (w : BreakerWatch) : Prop where
  /-- No trip lies in the future, -/
  past : ∀ t ∈ w.trips, t ≤ w.nowNs
  /-- and each of them has shut the breaker. -/
  shut : ∀ t ∈ w.trips, w.ShutBy t

/-- The last reading of a call is the largest. -/
theorem Ordinary.le_last {w w' : BreakerWatch} {c : Call} (h : w.Ordinary c w') :
    w.nowNs ≤ c.readings.getLastD w.nowNs ∧ ∀ t ∈ c.readings, t ≤ c.readings.getLastD w.nowNs := by
  have hclock := h.clock
  cases c with
  | recordOrderSubmission | disable | enable => exact ⟨le_rfl, nofun⟩
  | isTradingAllowed | reset | updateEquity | recordApiError | recordOrderRejection =>
      simp only [Call.readings, List.pairwise_cons, List.mem_cons, List.not_mem_nil, or_false,
        List.getLastD_cons, List.getLastD_nil, forall_eq_or_imp, forall_eq] at hclock ⊢
      omega

/-- A call that is not a reset forgets no trip. -/
theorem tripsAfter_eq (w : BreakerWatch) {c : Call} (hreset : ∀ nowNs, c ≠ .reset nowNs) :
    w.tripsAfter c = w.trips ++ (w.breaker.tripTime c).toList := by
  cases c with
  | reset nowNs => exact absurd rfl (hreset nowNs)
  | updateEquity | recordApiError | recordOrderRejection | isTradingAllowed
  | recordOrderSubmission | disable | enable => rfl

/-- No call changes the length of the cooldown. -/
theorem cooldownNs_apply (b : CircuitBreaker) (c : Call) :
    (b.apply c).cooldownNs = b.cooldownNs := by
  rw [cooldownNs, config_apply, cooldownNs]

/-- After a trip at `t` the new cooldown ends after that of every earlier trip. -/
theorem Inv.trips {w w' : BreakerWatch} {c : Call} (inv : w.Inv) (hstep : w.step c = some w')
    (hordinary : w.Ordinary c w') {t : Nat} (reading : t ∈ c.readings)
    (opened : w.breaker.OpenedAt (w.breaker.apply c) t)
    (hfits : t + w.breaker.cooldownNs < 2 ^ 64) (htrips : w.tripsAfter c = w.trips ++ [t]) :
    w'.Inv := by
  obtain rfl : _ = w' := Option.some.inj hstep
  have hend : (w.breaker.apply c).cooldownEndNs = t + w.breaker.cooldownNs := by
    rw [opened.cooldownEnd, Nat.mod_eq_of_lt hfits]
  have hall : ∀ u ∈ w.tripsAfter c, u ≤ t := by
    rw [htrips]
    intro u hu
    rcases List.mem_append.mp hu with hold | hnew
    · exact (inv.past u hold).trans ((List.pairwise_cons.mp hordinary.clock).1 t reading)
    · exact (List.mem_singleton.mp hnew).le
  refine ⟨fun u hu => (hall u hu).trans (hordinary.le_last.2 t reading), fun u hu => ?_⟩
  refine .cooling opened.state ?_
  dsimp only
  rw [cooldownNs_apply w.breaker c, hend]
  exact Nat.add_le_add_right (hall u hu) _

/-- **One call keeps the invariant.** -/
theorem inv_step {w w' : BreakerWatch} {c : Call} (inv : w.Inv) (hstep : w.step c = some w')
    (hordinary : w.Ordinary c w') : w'.Inv := by
  by_cases hreset : ∃ nowNs, c = .reset nowNs
  · obtain ⟨nowNs, rfl⟩ := hreset
    obtain rfl : _ = w' := Option.some.inj hstep
    exact ⟨nofun, nofun⟩
  have hconfig := config_apply w.breaker c
  have hlength := cooldownNs_apply w.breaker c
  have htrips := w.tripsAfter_eq (not_exists.mp hreset)
  cases effect_apply w.breaker (not_exists.mp hreset) with
  | trips t tripTime reading opened =>
      rw [tripTime, Option.toList_some] at htrips
      exact inv.trips hstep hordinary reading opened (hordinary.fits t tripTime) htrips
  | keeps tripTime keeps =>
      obtain rfl : _ = w' := Option.some.inj hstep
      obtain ⟨hnow, -⟩ := hordinary.le_last
      rw [tripTime, Option.toList_none, List.append_nil] at htrips
      refine ⟨fun u hu => (inv.past u (htrips ▸ hu)).trans hnow, fun u hu => ?_⟩
      cases inv.shut u (htrips ▸ hu) with
      | cooling state cooldownEnd =>
          refine .cooling (keeps.state.trans state) ?_
          dsimp only
          rw [hlength, keeps.cooldownEnd]
          exact cooldownEnd
      | passed autoRecovery expired =>
          refine .passed ((congrArg BreakerConfig.autoRecovery hconfig).trans autoRecovery) ?_
          dsimp only
          rw [hlength]
          exact expired.trans hnow
  | recovers nowNs tripTime reading recovers =>
      obtain rfl : _ = w' := Option.some.inj hstep
      obtain ⟨hnow, hreadings⟩ := hordinary.le_last
      rw [tripTime, Option.toList_none, List.append_nil] at htrips
      refine ⟨fun u hu => (inv.past u (htrips ▸ hu)).trans hnow, fun u hu => ?_⟩
      refine .passed ((congrArg BreakerConfig.autoRecovery hconfig).trans recovers.autoRecovery) ?_
      dsimp only
      rw [hlength]
      cases inv.shut u (htrips ▸ hu) with
      | cooling state cooldownEnd =>
          exact (cooldownEnd.trans recovers.expired).trans (hreadings nowNs reading)
      | passed autoRecovery expired => exact expired.trans hnow

/-- The answer of a breaker that is shut by a trip whose cooldown lasts. -/
theorem staysShut_of_inv {w w' : BreakerWatch} {c : Call} (inv : w.Inv)
    (hordinary : w.Ordinary c w') : w.StaysShut c w' := by
  rintro nowNs rfl hshut
  have hnow : w.nowNs ≤ nowNs := (List.pairwise_cons.mp hordinary.clock).1 nowNs
    (List.mem_singleton_self nowNs)
  have hopen : w.breaker.state = .open ∧
      ¬ (w.breaker.isCooldownExpired nowNs = true ∧ w.breaker.config.autoRecovery = true) := by
    rcases hshut with ⟨t, ht, hcooling⟩ | ⟨hmanual, htrips⟩
    · cases inv.shut t ht with
      | cooling state cooldownEnd =>
          refine ⟨state, fun h => ?_⟩
          have hexpired : w.breaker.cooldownEndNs = 0 ∨ nowNs ≥ w.breaker.cooldownEndNs :=
            of_decide_eq_true h.1
          omega
      | passed autoRecovery expired => omega
    · obtain ⟨t, ht⟩ := List.exists_mem_of_ne_nil _ htrips
      cases inv.shut t ht with
      | cooling state cooldownEnd => exact ⟨state, fun h => by simp [hmanual] at h⟩
      | passed autoRecovery expired => simp [hmanual] at autoRecovery
  unfold isTradingAllowed
  split
  · rfl
  · rw [hopen.1]
    exact congrArg Prod.snd (if_neg hopen.2)

/-- **A tripped breaker stays shut until it is reset**, in every run of calls on any breaker
whose trips are watched from now on. -/
theorem allSteps_staysShut (b : CircuitBreaker) (nowNs : Nat) (calls : List Call)
    (hordinary : AllSteps step Ordinary ⟨b, [], nowNs⟩ calls) :
    AllSteps step StaysShut ⟨b, [], nowNs⟩ calls :=
  AllSteps.of_invariant
    (fun _ _ _ (inv : Inv _) hstep hstepOrdinary =>
      ⟨inv_step inv hstep hstepOrdinary, staysShut_of_inv inv hstepOrdinary⟩)
    calls _ ⟨nofun, nofun⟩ hordinary

/-- The theorem on a breaker that recovers by itself, asked while its cooldown lasts and
after it. -/
theorem allSteps_staysShut_firstError :
    AllSteps step StaysShut
      ⟨.new { BreakerConfig.default with maxApiErrors := 1, autoRecovery := true } 5, [], 5⟩
      [.recordApiError 6 ⟨6, 7⟩, .isTradingAllowed 60000000006, .isTradingAllowed 60000000007] :=
  allSteps_staysShut _ 5 _ (by decide)

end BreakerWatch

end StopTrading.Safety
