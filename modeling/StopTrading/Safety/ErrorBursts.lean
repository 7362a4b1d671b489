import StopTrading.Safety.CircuitBreaker

/-!
# Bursts of API errors

`record_api_error` counts the errors in windows: the first error that comes more than
`api_error_window_s` after the start of a window starts the next one, and is its first error.
So errors are counted together if they fall into one window (`OneWindow`), and not whenever
they fall into some interval of that length: a burst over the start of a window is counted in
two parts (`not_forall_catchesBursts`).

What is certain of any interval is `tripped_of_burst`: at most one window starts in it, so of
about twice as many errors enough are counted together.

The error that starts a window is counted and not compared with the limit.

### What is load-bearing

Between two starts of a window the count goes up by one with every error, so that as many calm
errors as the limit trip the breaker (`Counting.calm`).  The error that starts a window is not
compared with the limit: it can be counted, and the breaker stays shut for one more.  This is why
`OneWindow` asks that the last error is not the one that starts it.

For an interval, `calm_or_split` looks for the first error in it that starts a window.  Those
before it are calm.  Those after it are no further from it than the length of a window, so they
are calm as well (`Counting.calm_of_near`).  One of the two parts is long enough.

### Design decisions

The limit is assumed positive.  With a limit of zero every counted error trips the breaker, and
there would be nothing to prove about bursts.
-/

namespace StopTrading.Safety

open Transition

/-- One call of `record_api_error`. -/
structure ApiError where
  ns : Nat
  clock : Clock
  deriving Repr, DecidableEq

namespace CircuitBreaker

/-- The breaker after an error. -/
def record (b : CircuitBreaker) (e : ApiError) : CircuitBreaker :=
  (b.recordApiError e.ns e.clock).1

/-- Some errors. -/
def recordAll (b : CircuitBreaker) (errors : List ApiError) : CircuitBreaker :=
  errors.foldl record b

/-- One error. -/
def recordStep (b : CircuitBreaker) (e : ApiError) : Option CircuitBreaker := some (b.record e)

/-- The length of a window. -/
def windowNs (b : CircuitBreaker) : Nat := b.config.apiErrorWindowS * 1000000000 % 2 ^ 64

/-- **An error starts a window.** -/
def Restarts (b : CircuitBreaker) (e : ApiError) : Prop :=
  e.ns - b.apiErrorWindowStartNs > b.windowNs

/-- Some errors start no window. -/
def Calm (b : CircuitBreaker) (errors : List ApiError) : Prop :=
  AllSteps recordStep (fun b e _ => ¬ b.Restarts e) b errors

/-- **Some errors fall into one window**, and the last of them does not start it. -/
def OneWindow (b : CircuitBreaker) : List ApiError → Prop
  | [] => True
  | e :: errors => (b.record e).Calm errors ∧ (errors = [] → ¬ b.Restarts e)

/-- **Some errors fall into an interval.** -/
def Within (seconds : Nat) (errors : List ApiError) : Prop :=
  ∀ e ∈ errors, ∀ e' ∈ errors, e'.ns - e.ns ≤ seconds * 1000000000

instance (seconds : Nat) (errors : List ApiError) : Decidable (Within seconds errors) :=
  inferInstanceAs (Decidable (∀ e ∈ errors, ∀ e' ∈ errors, _))

section Record

variable {b : CircuitBreaker} {e : ApiError}

/-- An error changes neither the configuration -/
theorem config_record (b : CircuitBreaker) (e : ApiError) : (b.record e).config = b.config := by
  unfold record recordApiError
  dsimp only
  split_ifs <;> rfl

/-- nor whether the breaker is enabled. -/
theorem enabled_record (b : CircuitBreaker) (e : ApiError) : (b.record e).enabled = b.enabled := by
  unfold record recordApiError
  dsimp only
  split_ifs <;> rfl

/-- An error that starts a window is its first. -/
theorem record_of_restarts (henabled : b.enabled = true) (h : b.Restarts e) :
    b.record e = { b with apiErrorWindowStartNs := e.ns, apiErrorCount := 1 } := by
  unfold record recordApiError
  rw [Restarts, windowNs] at h
  rw [if_neg (by rw [henabled]; exact Bool.noConfusion), if_pos h]

/-- **An error that is counted**: it trips the breaker, or the count is below the limit. -/
theorem record_of_calm (henabled : b.enabled = true) (h : ¬ b.Restarts e) :
    (b.record e).apiErrorWindowStartNs = b.apiErrorWindowStartNs ∧
      (b.record e).apiErrorCount = (b.apiErrorCount + 1) % 2 ^ 64 ∧
      ((b.record e).state = .open ∨ (b.record e).apiErrorCount < b.config.maxApiErrors) := by
  unfold record recordApiError
  rw [Restarts, windowNs] at h
  rw [if_neg (by rw [henabled]; exact Bool.noConfusion), if_neg h]
  dsimp only
  split
  · exact ⟨rfl, rfl, .inl rfl⟩
  · rename_i hbelow
    exact ⟨rfl, rfl, .inr (not_le.mp hbelow)⟩

/-- A breaker that has tripped stays so. -/
theorem open_record (h : b.state = .open) : (b.record e).state = .open := by
  unfold record recordApiError
  dsimp only
  split_ifs
  · exact h
  · exact h
  · rfl
  · exact h

end Record

/-- A breaker that has tripped stays open over any errors. -/
theorem open_recordAll {b : CircuitBreaker} (h : b.state = .open) (errors : List ApiError) :
    (b.recordAll errors).state = .open := by
  induction errors generalizing b with
  | nil => exact h
  | cons e errors ih => exact ih (open_record h)

/-- Errors one after the other are recorded so. -/
theorem recordAll_append (b : CircuitBreaker) (errors errors' : List ApiError) :
    b.recordAll (errors ++ errors') = (b.recordAll errors).recordAll errors' :=
  List.foldl_append

/-- The configuration stays over any errors. -/
theorem config_recordAll (b : CircuitBreaker) (errors : List ApiError) :
    (b.recordAll errors).config = b.config := by
  induction errors generalizing b with
  | nil => rfl
  | cons e errors ih => exact (ih (b.record e)).trans (config_record b e)

/-! ## Errors that are counted together -/

/-- What holds between the errors. -/
structure Counting (b : CircuitBreaker) : Prop where
  enabled : b.enabled = true
  positive : 1 ≤ b.config.maxApiErrors
  /-- The limit is a word of 32 bits, -/
  narrow : b.config.maxApiErrors < 2 ^ 32
  /-- so that the counter does not go round before the breaker trips. -/
  count : b.state = .open ∨ b.apiErrorCount + 1 < 2 ^ 64

section Counted

variable {b : CircuitBreaker}

/-- One error keeps what holds between them, -/
theorem Counting.record (h : Counting b) (e : ApiError) : Counting (b.record e) := by
  refine ⟨(enabled_record b e).trans h.enabled, ?_, ?_, ?_⟩
  · rw [config_record]
    exact h.positive
  · rw [config_record]
    exact h.narrow
  · rcases h.count with hopen | hcount
    · exact .inl (open_record hopen)
    · by_cases hrestarts : b.Restarts e
      · refine .inr ?_
        rw [record_of_restarts h.enabled hrestarts]
        show 1 + 1 < 2 ^ 64
        decide
      · obtain ⟨-, -, hopen | hbelow⟩ := record_of_calm h.enabled hrestarts
        · exact .inl hopen
        · have hnarrow := h.narrow
          exact .inr (by omega)

/-- and so do any number. -/
theorem Counting.recordAll (h : Counting b) (errors : List ApiError) :
    Counting (b.recordAll errors) := by
  induction errors generalizing b with
  | nil => exact h
  | cons e errors ih => exact ih (h.record e)

/-- **Errors that start no window are all counted**: the breaker has tripped, or they are
fewer than the limit. -/
theorem Counting.calm (h : Counting b) {errors : List ApiError} (hcalm : b.Calm errors) :
    (b.recordAll errors).state = .open ∨
      (errors ≠ [] → b.apiErrorCount + errors.length < b.config.maxApiErrors) := by
  induction errors generalizing b with
  | nil => exact .inr fun hne => absurd rfl hne
  | cons e errors ih =>
      obtain ⟨hnot, hrest⟩ := (allSteps_cons_some rfl).mp hcalm
      rcases h.count with hopen | hcount
      · exact .inl (open_recordAll (open_record hopen) errors)
      · obtain ⟨-, hnext, hopen | hbelow⟩ := record_of_calm h.enabled hnot
        · exact .inl (open_recordAll hopen errors)
        · rw [Nat.mod_eq_of_lt hcount] at hnext
          refine (ih (h.record e) hrest).imp id fun hlater _ => ?_
          rw [hnext, config_record] at hlater
          rw [List.length_cons]
          by_cases hlast : errors = []
          · subst hlast
            exact hnext ▸ hbelow
          · have hsum := hlater hlast
            omega

/-- **As many errors in one window as the limit** trip the breaker. -/
theorem Counting.oneWindow (h : Counting b) {burst : List ApiError} (hwindow : b.OneWindow burst)
    (hmany : b.config.maxApiErrors ≤ burst.length) : (b.recordAll burst).state = .open := by
  have hpositive := h.positive
  cases burst with
  | nil => exact absurd (hpositive.trans hmany) (by decide)
  | cons e errors =>
      obtain ⟨hcalm, hlast⟩ := hwindow
      rw [List.length_cons] at hmany
      by_cases hrestarts : b.Restarts e
      · refine ((h.record e).calm hcalm).resolve_right fun hfew => ?_
        have hsum := hfew fun hnil => hlast hnil hrestarts
        rw [config_record, record_of_restarts h.enabled hrestarts] at hsum
        dsimp only at hsum
        omega
      · have hboth : b.Calm (e :: errors) := (allSteps_cons_some rfl).mpr ⟨hrestarts, hcalm⟩
        refine (h.calm hboth).resolve_right fun hfew => ?_
        have hsum := hfew (List.cons_ne_nil e errors)
        rw [List.length_cons] at hsum
        omega

/-- Errors are calm up to the first that starts a window. -/
theorem calm_or_split (b : CircuitBreaker) (errors : List ApiError) :
    b.Calm errors ∨ ∃ earlier e later, errors = earlier ++ e :: later ∧ b.Calm earlier ∧
      (b.recordAll earlier).Restarts e := by
  induction errors generalizing b with
  | nil => exact .inl trivial
  | cons e errors ih =>
      by_cases hrestarts : b.Restarts e
      · exact .inr ⟨[], e, errors, rfl, trivial, hrestarts⟩
      · rcases ih (b.record e) with hcalm | ⟨earlier, e', later, rfl, hcalm, hrestarts'⟩
        · exact .inl ((allSteps_cons_some rfl).mpr ⟨hrestarts, hcalm⟩)
        · exact .inr ⟨e :: earlier, e', later, rfl,
            (allSteps_cons_some rfl).mpr ⟨hrestarts, hcalm⟩, hrestarts'⟩

/-- **Behind the start of a window** errors that are no further than its length start none. -/
theorem Counting.calm_of_near (h : Counting b) {errors : List ApiError}
    (hnear : ∀ e ∈ errors, e.ns - b.apiErrorWindowStartNs ≤ b.windowNs) : b.Calm errors := by
  induction errors generalizing b with
  | nil => exact trivial
  | cons e errors ih =>
      rw [List.forall_mem_cons] at hnear
      have hnot : ¬ b.Restarts e := not_lt.mpr hnear.1
      obtain ⟨hstart, -, -⟩ := record_of_calm h.enabled hnot
      refine (allSteps_cons_some rfl).mpr ⟨hnot, ih (h.record e) fun e' he' => ?_⟩
      rw [hstart, windowNs, config_record]
      exact hnear.2 e' he'

/-- **About twice as many errors in an interval as the limit** trip the breaker: one window
starts in it at most. -/
theorem Counting.within (h : Counting b) {burst : List ApiError}
    (hlength : b.config.apiErrorWindowS * 1000000000 < 2 ^ 64)
    (hwithin : Within b.config.apiErrorWindowS burst) (htwo : 2 ≤ burst.length)
    (hmany : 2 * b.config.maxApiErrors ≤ burst.length + 1) :
    (b.recordAll burst).state = .open := by
  have hpositive := h.positive
  rcases calm_or_split b burst with hcalm | ⟨earlier, e, later, rfl, hcalm, hrestarts⟩
  · refine (h.calm hcalm).resolve_right fun hfew => ?_
    have hsum := hfew (List.ne_nil_of_length_pos (by omega))
    omega
  · rw [List.length_append, List.length_cons] at htwo hmany
    rw [recordAll_append]
    rcases h.calm hcalm with hopen | hfew
    · exact open_recordAll hopen _
    have hearlier : earlier.length < b.config.maxApiErrors := by
      rcases Nat.eq_zero_or_pos earlier.length with hzero | hpos
      · omega
      · have hsum := hfew (List.ne_nil_of_length_pos hpos)
        omega
    have hcounting := h.recordAll earlier
    have hconfig := config_recordAll b earlier
    refine hcounting.oneWindow ⟨?_, fun hnil _ => ?_⟩ ?_
    · refine (hcounting.record e).calm_of_near fun e' he' => ?_
      rw [record_of_restarts hcounting.enabled hrestarts, windowNs]
      dsimp only
      rw [hconfig, Nat.mod_eq_of_lt hlength]
      exact hwithin e (List.mem_append_right _ List.mem_cons_self) e'
        (List.mem_append_right _ (List.mem_cons_of_mem _ he'))
    · rw [hnil, List.length_nil] at htwo hmany
      omega
    · rw [hconfig, List.length_cons]
      omega

end Counted

end CircuitBreaker

end StopTrading.Safety
