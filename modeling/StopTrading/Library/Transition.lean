import Mathlib.Logic.Function.Basic
import Mathlib.Tactic.Common

/-!
# Runs of a partial step function

A system is a step function `step : S → A → Option S`: in state `s` the action
`a` is either impossible (`none`) or leads to the state it returns.  A run is a
list of actions.  Sequential objects are the case in which `step` never returns
`none`; interleaved threads are the case in which an action names the thread
that moves.

* `AllSteps step P s as` — every step the run takes from `s` satisfies `P`.
* `AllStates step P s as` — every state the run passes satisfies `P`.
* `allSteps_of_forall`, `allSteps_of_forall_mem`, `allSteps_congr`, `allSteps_and` — a run
  does what each of its steps does.
* `AllSteps.of_invariant`, `allSteps_iff_of_invariant`, `allSteps_iff_of_step_iff` — the
  induction over a run, done once.  The last two are the forms used when a property fails:
  they turn a one-step analysis ("under the invariant a step that meets `G` is good and a
  step that is good meets `G`") into an equivalence about whole runs.
* `allStates_of_invariant`, `allStates_congr`, `allSteps_iff_allStates` — the same for a
  property of the states.
* `run_append`, `run_map`, `AllStates.of_run` — runs one after the other, runs in an image of
  the states, and the state at the end.
* `exists_run_of_invariant`, `run_of_invariant`, `allSteps_of_absorbing` — the state a run
  ends in: there is one if every action is possible, what guarded steps keep holds of it,
  and a run that does not end in a trap took only guarded steps.

A run stops at the first impossible action, so both predicates quantify over
the longest executable prefix.

### What is load-bearing

The equivalences are the reason for this module.  For a program with a defect, the results wanted
are of the form "a run is good if and only if each of its steps avoids the defect", and both
directions go through one invariant that only the good steps keep.  Proved by hand, such a result
needs an induction in which the invariant, the guard and the property are carried together.
`allSteps_iff_of_invariant` and `allSteps_iff_allStates_of_valid` do this once; a client proves
facts about one step.
-/

namespace StopTrading.Transition

universe u v

variable {S : Type u} {A : Type v}

/-- The state a run ends in, when all of its actions are possible. -/
def run (step : S → A → Option S) : S → List A → Option S
  | s, [] => some s
  | s, a :: as => (step s a).bind fun s' => run step s' as

/-- **Every step of a run** satisfies `P` (state before, action, state after). -/
def AllSteps (step : S → A → Option S) (P : S → A → S → Prop) : S → List A → Prop
  | _, [] => True
  | s, a :: as =>
      match step s a with
      | none => True
      | some s' => P s a s' ∧ AllSteps step P s' as

/-- **Every state of a run** satisfies `P`, the first one included. -/
def AllStates (step : S → A → Option S) (P : S → Prop) (s : S) (as : List A) : Prop :=
  P s ∧ AllSteps step (fun _ _ s' => P s') s as

variable {step : S → A → Option S}

/-- Whether every step of a given run satisfies a decidable property can be
computed. -/
instance decidableAllSteps {P : S → A → S → Prop} [∀ s a s', Decidable (P s a s')] :
    ∀ (s : S) (as : List A), Decidable (AllSteps step P s as)
  | _, [] => isTrue trivial
  | s, a :: as =>
      match hstep : step s a with
      | none => isTrue (by simp only [AllSteps, hstep])
      | some s' =>
          have : Decidable (AllSteps step P s' as) := decidableAllSteps s' as
          decidable_of_iff (P s a s' ∧ AllSteps step P s' as) (by simp only [AllSteps, hstep])

/-- The same for a property of the states. -/
instance decidableAllStates {P : S → Prop} [∀ s, Decidable (P s)] (s : S) (as : List A) :
    Decidable (AllStates step P s as) :=
  inferInstanceAs (Decidable (_ ∧ _))

/-- A run that begins with a possible action. -/
theorem allSteps_cons_some {P : S → A → S → Prop} {s s' : S} {a : A} {as : List A}
    (h : step s a = some s') :
    AllSteps step P s (a :: as) ↔ P s a s' ∧ AllSteps step P s' as := by
  simp only [AllSteps, h]

/-- A run that stops at once. -/
theorem allSteps_cons_none {P : S → A → S → Prop} {s : S} {a : A} {as : List A}
    (h : step s a = none) : AllSteps step P s (a :: as) := by
  simp only [AllSteps, h]

/-- Every step does two things if every step does each of them. -/
theorem allSteps_and {P Q : S → A → S → Prop} {as : List A} {s : S} :
    AllSteps step (fun s a s' => P s a s' ∧ Q s a s') s as ↔
      AllSteps step P s as ∧ AllSteps step Q s as := by
  induction as generalizing s with
  | nil => exact iff_of_true trivial ⟨trivial, trivial⟩
  | cons a as ih =>
      cases hstep : step s a with
      | none =>
          exact iff_of_true (allSteps_cons_none hstep)
            ⟨allSteps_cons_none hstep, allSteps_cons_none hstep⟩
      | some s' =>
          rw [allSteps_cons_some hstep, allSteps_cons_some hstep, allSteps_cons_some hstep, ih]
          exact and_and_and_comm

/-- **The run rule for equivalences.**  `V` holds of every step by assumption
(what the callers promise).  If, under the invariant, a step that meets `G` keeps
the invariant and is good, and a good step meets `G`, then the good runs are
exactly the runs whose steps all meet `G`. -/
theorem allSteps_iff_of_invariant {Inv : S → Prop} {V G P : S → A → S → Prop}
    (sound : ∀ s a s', Inv s → step s a = some s' → V s a s' → G s a s' →
      Inv s' ∧ P s a s')
    (exact' : ∀ s a s', Inv s → step s a = some s' → V s a s' → P s a s' → G s a s') :
    ∀ (as : List A) (s : S), Inv s → AllSteps step V s as →
      (AllSteps step G s as ↔ AllSteps step P s as) := by
  intro as
  induction as with
  | nil => intro s _ _; exact Iff.rfl
  | cons a as ih =>
      intro s inv valid
      cases hstep : step s a with
      | none => simp only [AllSteps, hstep]
      | some s' =>
          rw [allSteps_cons_some hstep] at valid
          rw [allSteps_cons_some hstep, allSteps_cons_some hstep]
          constructor
          · rintro ⟨guard, rest⟩
            have good := sound s a s' inv hstep valid.1 guard
            exact ⟨good.2, (ih s' good.1 valid.2).mp rest⟩
          · rintro ⟨good, rest⟩
            have guard := exact' s a s' inv hstep valid.1 good
            have inv' := (sound s a s' inv hstep valid.1 guard).1
            exact ⟨guard, (ih s' inv' valid.2).mpr rest⟩

/-- The same where it is known of each step what makes it good, and good steps keep the
invariant. -/
theorem allSteps_iff_of_step_iff {Inv : S → Prop} {V G P : S → A → S → Prop}
    (keep : ∀ s a s', Inv s → step s a = some s' → V s a s' → P s a s' → Inv s')
    (good : ∀ s a s', Inv s → step s a = some s' → V s a s' → (P s a s' ↔ G s a s'))
    (as : List A) {s : S} (inv : Inv s) (valid : AllSteps step V s as) :
    AllSteps step P s as ↔ AllSteps step G s as := by
  have sound : ∀ s a s', Inv s → step s a = some s' → V s a s' → G s a s' →
      Inv s' ∧ P s a s' := by
    intro s a s' inv hstep hvalid hguard
    have hgood := (good s a s' inv hstep hvalid).mpr hguard
    exact ⟨keep s a s' inv hstep hvalid hgood, hgood⟩
  exact (allSteps_iff_of_invariant sound
    (fun s a s' inv hstep hvalid => (good s a s' inv hstep hvalid).mp) as s inv valid).symm

/-- What every step does, every step of a run does. -/
theorem allSteps_of_forall {P : S → A → S → Prop}
    (h : ∀ s a s', step s a = some s' → P s a s') :
    ∀ (as : List A) (s : S), AllSteps step P s as := by
  intro as
  induction as with
  | nil => intro s; exact trivial
  | cons a as ih =>
      intro s
      cases hstep : step s a with
      | none => exact allSteps_cons_none hstep
      | some s' => exact (allSteps_cons_some hstep).mpr ⟨h s a s' hstep, ih s'⟩

/-- What is true of every action of a run is true of every step. -/
theorem allSteps_of_forall_mem {Q : A → Prop} :
    ∀ (as : List A) (s : S), (∀ a ∈ as, Q a) → AllSteps step (fun _ a _ => Q a) s as := by
  intro as
  induction as with
  | nil => intro s _; exact trivial
  | cons a as ih =>
      intro s h
      rw [List.forall_mem_cons] at h
      cases hstep : step s a with
      | none => exact allSteps_cons_none hstep
      | some s' => exact (allSteps_cons_some hstep).mpr ⟨h.1, ih s' h.2⟩

/-- The run rule without an invariant. -/
theorem allSteps_congr {P Q : S → A → S → Prop}
    (h : ∀ s a s', step s a = some s' → (P s a s' ↔ Q s a s')) (as : List A) (s : S) :
    AllSteps step P s as ↔ AllSteps step Q s as :=
  allSteps_iff_of_invariant (fun s a s' _ hstep _ hp => ⟨trivial, (h s a s' hstep).mp hp⟩)
    (fun s a s' _ hstep _ hq => (h s a s' hstep).mpr hq) as s trivial
    (allSteps_of_forall (fun _ _ _ _ => trivial) as s)

/-- **The run rule.**  A property that one guarded step establishes from the
invariant, and an invariant that one guarded step keeps, hold along every run
whose steps meet the guard. -/
theorem AllSteps.of_invariant {Inv : S → Prop} {G P : S → A → S → Prop}
    (sound : ∀ s a s', Inv s → step s a = some s' → G s a s' → Inv s' ∧ P s a s') :
    ∀ (as : List A) (s : S), Inv s → AllSteps step G s as → AllSteps step P s as := by
  intro as
  induction as with
  | nil => intro s _ _; exact trivial
  | cons a as ih =>
      intro s inv guard
      cases hstep : step s a with
      | none => exact allSteps_cons_none hstep
      | some s' =>
          rw [allSteps_cons_some hstep] at guard ⊢
          have good := sound s a s' inv hstep guard.1
          exact ⟨good.2, ih s' good.1 guard.2⟩

/-- What is true of every state of a run and implies something else. -/
theorem AllStates.imp {P Q : S → Prop} (h : ∀ s, P s → Q s) {s : S} {as : List A}
    (hrun : AllStates step P s as) : AllStates step Q s as :=
  ⟨h s hrun.1, AllSteps.of_invariant (fun _ _ s' (_ : True) _ hs' => ⟨trivial, h s' hs'⟩) as s
    trivial hrun.2⟩

/-- The run rule for a property of states. -/
theorem AllStates.of_invariant {Inv : S → Prop} {G : S → A → S → Prop} {P : S → Prop}
    (safe : ∀ s, Inv s → P s)
    (keep : ∀ s a s', Inv s → step s a = some s' → G s a s' → Inv s')
    {s : S} {as : List A} (inv : Inv s) (guard : AllSteps step G s as) :
    AllStates step P s as :=
  ⟨safe s inv, AllSteps.of_invariant (fun s a s' hinv hstep hguard =>
    have inv' := keep s a s' hinv hstep hguard
    ⟨inv', safe s' inv'⟩) as s inv guard⟩

/-- **Safe states come of guarded steps**, where only a step that meets the guard leads to a
safe state, and the guard keeps the invariant. -/
theorem AllStates.allSteps {Inv P : S → Prop} {G : S → A → S → Prop}
    (keep : ∀ s a s', Inv s → step s a = some s' → G s a s' → Inv s')
    (exact' : ∀ s a s', Inv s → step s a = some s' → P s' → G s a s')
    {s : S} {as : List A} (inv : Inv s) (h : AllStates step P s as) : AllSteps step G s as :=
  AllSteps.of_invariant (fun s a s' hinv hstep hsafe =>
    have guard := exact' s a s' hinv hstep hsafe
    ⟨keep s a s' hinv hstep guard, guard⟩) as s inv h.2

/-- An invariant of all steps holds in every state. -/
theorem allStates_of_invariant {Inv : S → Prop}
    (keep : ∀ s a s', Inv s → step s a = some s' → Inv s') {s : S} (inv : Inv s) (as : List A) :
    AllStates step Inv s as :=
  AllStates.of_invariant (fun _ h => h)
    (fun s a s' h hstep (_ : True) => keep s a s' h hstep) inv
    (allSteps_of_forall (fun _ _ _ _ => trivial) as s)

/-- What an invariant makes equivalent is equivalent along its runs. -/
theorem allStates_congr {Inv P Q : S → Prop} (h : ∀ s, Inv s → (P s ↔ Q s))
    (keep : ∀ s a s', Inv s → step s a = some s' → Inv s') {s : S} (inv : Inv s)
    (as : List A) : AllStates step P s as ↔ AllStates step Q s as :=
  and_congr (h s inv)
    (allSteps_iff_of_invariant
      (fun s a s' hinv hstep (_ : True) hp =>
        have inv' := keep s a s' hinv hstep
        ⟨inv', (h s' inv').mp hp⟩)
      (fun s a s' hinv hstep _ hq => (h s' (keep s a s' hinv hstep)).mpr hq) as s inv
      (allSteps_of_forall (fun _ _ _ _ => trivial) as s))

/-- **The run rule for equivalences**, for a property of states: the guard is what
keeps the invariant, and only a step that meets it leads to a safe state. -/
theorem allSteps_iff_allStates_of_valid {Inv P : S → Prop} {V G : S → A → S → Prop}
    (safe : ∀ s, Inv s → P s)
    (keep : ∀ s a s', Inv s → step s a = some s' → V s a s' → G s a s' → Inv s')
    (exact' : ∀ s a s', Inv s → step s a = some s' → V s a s' → P s' → G s a s')
    {s : S} (inv : Inv s) {as : List A} (valid : AllSteps step V s as) :
    AllSteps step G s as ↔ AllStates step P s as := by
  have steps : AllSteps step G s as ↔ AllSteps step (fun _ _ s' => P s') s as :=
    allSteps_iff_of_invariant
      (fun s a s' h hstep hvalid guard =>
        have inv' := keep s a s' h hstep hvalid guard
        ⟨inv', safe s' inv'⟩)
      exact' as s inv valid
  exact steps.trans (and_iff_right (safe s inv)).symm

/-- The same without a promise of the callers. -/
theorem allSteps_iff_allStates {Inv P : S → Prop} {G : S → A → S → Prop}
    (safe : ∀ s, Inv s → P s)
    (keep : ∀ s a s', Inv s → step s a = some s' → G s a s' → Inv s')
    (exact' : ∀ s a s', Inv s → step s a = some s' → P s' → G s a s')
    {s : S} (inv : Inv s) (as : List A) :
    AllSteps step G s as ↔ AllStates step P s as :=
  allSteps_iff_allStates_of_valid safe
    (fun s a s' h hstep (_ : True) guard => keep s a s' h hstep guard)
    (fun s a s' h hstep _ hsafe => exact' s a s' h hstep hsafe) inv
    (allSteps_of_forall (fun _ _ _ _ => trivial) as s)

/-! ## The state a run ends in -/

/-- The first step of a run, and the rest. -/
theorem run_cons {s s' : S} {a : A} {as : List A} :
    run step s (a :: as) = some s' ↔ ∃ m, step s a = some m ∧ run step m as = some s' :=
  Option.bind_eq_some_iff

/-- One run after another. -/
theorem run_append {s m s' : S} {as bs : List A} (hfirst : run step s as = some m)
    (hrest : run step m bs = some s') : run step s (as ++ bs) = some s' := by
  induction as generalizing s with
  | nil =>
      obtain rfl : s = m := Option.some.inj hfirst
      exact hrest
  | cons a as ih =>
      obtain ⟨t, hstep, htail⟩ := run_cons.mp hfirst
      exact run_cons.mpr ⟨t, hstep, ih htail⟩

/-- The last step of a run. -/
theorem run_concat (s : S) (as : List A) (a : A) :
    run step s (as ++ [a]) = (run step s as).bind fun s' => step s' a := by
  induction as generalizing s with
  | nil =>
      have hone : run step s [a] = step s a := by
        rw [run]
        cases step s a <;> rfl
      exact hone
  | cons a' as ih =>
      rw [List.cons_append, run, run, Option.bind_assoc]
      exact congrArg _ (funext fun s' => ih s')

/-- Where every action is possible and keeps an invariant, every run reaches a state. -/
theorem exists_run_of_invariant {Inv : S → Prop}
    (keep : ∀ s a, Inv s → ∃ s', step s a = some s' ∧ Inv s') :
    ∀ (as : List A) (s : S), Inv s → ∃ s', run step s as = some s' ∧ Inv s' := by
  intro as
  induction as with
  | nil => exact fun s inv => ⟨s, rfl, inv⟩
  | cons a as ih =>
      intro s inv
      obtain ⟨m, hstep, inv'⟩ := keep s a inv
      obtain ⟨s', hrest, inv''⟩ := ih m inv'
      exact ⟨s', run_cons.mpr ⟨m, hstep, hrest⟩, inv''⟩

/-- A map of the states that commutes with every step commutes with runs. -/
theorem run_map {T : Type*} {f : S → T} {step' : T → A → Option T}
    (h : ∀ s a, step' (f s) a = (step s a).map f) :
    ∀ (as : List A) (s : S), run step' (f s) as = (run step s as).map f := by
  intro as
  induction as with
  | nil => intro s; rfl
  | cons a as ih =>
      intro s
      rw [run, run, h]
      cases step s a with
      | none => rfl
      | some s' => exact ih s'

/-- What is true of every state of a run is true where it ends. -/
theorem AllStates.of_run {P : S → Prop} {s s' : S} {as : List A} (h : AllStates step P s as)
    (hrun : run step s as = some s') : P s' := by
  induction as generalizing s with
  | nil =>
      obtain rfl : s = s' := Option.some.inj hrun
      exact h.1
  | cons a as ih =>
      obtain ⟨t, hstep, htail⟩ := run_cons.mp hrun
      exact ih ((allSteps_cons_some hstep).mp h.2) htail

/-- **An invariant that guarded steps keep** holds where the run ends. -/
theorem run_of_invariant {Inv : S → Prop} {G : S → A → S → Prop}
    (keep : ∀ s a s', Inv s → step s a = some s' → G s a s' → Inv s') :
    ∀ {as : List A} {s s' : S}, Inv s → AllSteps step G s as → run step s as = some s' →
      Inv s' := by
  intro as
  induction as with
  | nil =>
      intro s s' inv _ hrun
      obtain rfl : s = s' := Option.some.inj hrun
      exact inv
  | cons a as ih =>
      intro s s' inv guard hrun
      obtain ⟨m, hstep, hrest⟩ := run_cons.mp hrun
      rw [allSteps_cons_some hstep] at guard
      exact ih (keep s a m inv hstep guard.1) guard.2 hrest

/-- The same without a guard. -/
theorem run_of_invariant' {Inv : S → Prop}
    (keep : ∀ s a s', Inv s → step s a = some s' → Inv s')
    {as : List A} {s s' : S} (inv : Inv s) (hrun : run step s as = some s') : Inv s' :=
  run_of_invariant (fun s a s' h hstep (_ : True) => keep s a s' h hstep) inv
    (allSteps_of_forall (fun _ _ _ _ => trivial) as s) hrun

/-- **A trap catches every run that leaves the guard**: a step that fails `G`
enters `Bad`, and `Bad` is never left. -/
theorem allSteps_of_absorbing {Bad : S → Prop} {G : S → A → S → Prop}
    (enter : ∀ s a s', step s a = some s' → ¬ G s a s' → Bad s')
    (stay : ∀ s a s', Bad s → step s a = some s' → Bad s') :
    ∀ {as : List A} {s s' : S}, run step s as = some s' → ¬ Bad s' → AllSteps step G s as := by
  intro as
  induction as with
  | nil => intro _ _ _ _; exact trivial
  | cons a as ih =>
      intro s s' hrun hend
      obtain ⟨m, hstep, hrest⟩ := run_cons.mp hrun
      refine (allSteps_cons_some hstep).mpr ⟨?_, ih hrest hend⟩
      by_contra hguard
      exact hend (run_of_invariant' stay (enter s a m hstep hguard) hrest)

end StopTrading.Transition
