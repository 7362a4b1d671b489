import Mathlib.Data.List.Basic
import Mathlib.Tactic.Common

/-!
# Replies

A server answers calls one after the other: `serve s a` is the state after the call `a` and
the reply, or `none` where the call aborts.  `replies` collects what it answers.

* `Allowed` — every call of a run satisfies a guard in the state it is made in.
* `replies_of_simulation` — two servers that answer alike from related states, call by call
  and as long as the calls are allowed, answer alike in whole runs, and neither aborts.

### Why replies and not states

A component whose memory is laid out by hand and the plain table it implements have no state in
common, but they are called in the same way.  Comparing replies needs neither an abstraction
function on every state nor a statement about the memory: `Sim` may be any relation, and it
appears in no result.  What an outside caller can tell apart is exactly what `replies` lists.

The guard `G` is looked at in the states of the first server.  A caller's promise is usually
about the memory that is there ("the name fits", "the key is not replaced"), and the plain table
has nothing it could be broken by.  That `replies` is `some` on both sides is part of the
conclusion: an abort is not a reply that two servers could share.
-/

namespace StopTrading.Replies

universe u v w

variable {S T : Type u} {A : Type v} {R : Type w}

/-- What a server answers to some calls, unless it aborts. -/
def replies (serve : S → A → Option (S × R)) : S → List A → Option (List R)
  | _, [] => some []
  | s, a :: as =>
      (serve s a).bind fun served => (replies serve served.1 as).map (served.2 :: ·)

/-- Every call is made where the guard allows it. -/
def Allowed (serve : S → A → Option (S × R)) (G : S → A → Prop) : S → List A → Prop
  | _, [] => True
  | s, a :: as => G s a ∧ ∀ served, serve s a = some served → Allowed serve G served.1 as

/-- The guard can be evaluated along a run, if it can be evaluated in a state. -/
instance decidableAllowed {serve : S → A → Option (S × R)} {G : S → A → Prop}
    [∀ s a, Decidable (G s a)] : ∀ (s : S) (as : List A), Decidable (Allowed serve G s as)
  | _, [] => isTrue trivial
  | s, a :: as =>
      match hserve : serve s a with
      | none => decidable_of_iff (G s a) (by simp [Allowed, hserve])
      | some served =>
          have : Decidable (Allowed serve G served.1 as) := decidableAllowed served.1 as
          decidable_of_iff (G s a ∧ Allowed serve G served.1 as) (by simp [Allowed, hserve])

/-- Where nothing is asked of the callers, every run is allowed. -/
theorem allowed_of_forall {serve : S → A → Option (S × R)} {G : S → A → Prop}
    (h : ∀ s a, G s a) (s : S) (as : List A) : Allowed serve G s as := by
  induction as generalizing s with
  | nil => trivial
  | cons a as ih => exact ⟨h s a, fun served _ => ih served.1⟩

/-- **Simulation**: servers that answer alike call by call answer alike in runs. -/
theorem replies_of_simulation {serve : S → A → Option (S × R)} {serve' : T → A → Option (T × R)}
    {Sim : S → T → Prop} {G : S → A → Prop}
    (one : ∀ s t a, Sim s t → G s a →
      ∃ s' t' r, serve s a = some (s', r) ∧ serve' t a = some (t', r) ∧ Sim s' t') :
    ∀ {s : S} {t : T} (as : List A), Sim s t → Allowed serve G s as →
      ∃ rs, replies serve s as = some rs ∧ replies serve' t as = some rs := by
  intro s t as
  -- one call, then the induction hypothesis from the related states it leads to
  induction as generalizing s t with
  | nil => exact fun _ _ => ⟨[], rfl, rfl⟩
  | cons a as ih =>
      intro sim allowed
      obtain ⟨s', t', r, hserve, hserve', sim'⟩ := one s t a sim allowed.1
      obtain ⟨rs, hrs, hrs'⟩ := ih sim' (allowed.2 _ hserve)
      refine ⟨r :: rs, ?_, ?_⟩
      · rw [replies, hserve, Option.bind_some, hrs, Option.map_some]
      · rw [replies, hserve', Option.bind_some, hrs', Option.map_some]

end StopTrading.Replies
