import Mathlib.Data.Fintype.Card
import Mathlib.Data.List.Infix
import Mathlib.Data.List.Nodup
import Mathlib.Tactic.Common

/-!
# Walks along pointers

`next` leads from a node to another or nowhere.  `Trail next a l` says that the walk from `a`
ends after the nodes `l`; it is the list that starts at `a`.  The walk is computed with a
number of rounds (`trail`), or only its last node is (`follow`).

A walk that ends passes no node twice (`Trail.nodup`), so that as many rounds as there are
nodes are enough to tell whether it ends (`trail_eq_none`, `follow_eq_none`).

`From next head l` is the same of a list that may be empty, and `seek` looks along it for a node
with a property (`From.seek_eq`).

`Ends next` says that all walks end.  They still do after the usual changes of a linked list: a
node that nothing leads to gets a pointer (`Ends.update_of_fresh`), it is put behind another
(`Ends.insert_behind`), and a node is passed over (`Ends.bypass`).

### What is load-bearing

A walk along pointers need not end, and a program that follows one has no measure of its own.
The list of the nodes is the measure: `Trail` is inductive, so a walk that has one ends, and
because the list has no duplicates its length is bounded by the number of nodes.  The
computations `trail` and `follow` take rounds, and `none` after as many rounds as there are nodes
is a proof that the walk never ends, which is what a program that hangs needs.

`Ends` speaks of all nodes and not only of those that are reachable.  An arena has stale nodes
whose pointers still lead somewhere, and an update may make them reachable again; an invariant
about reachable nodes alone would not survive it.
-/

namespace StopTrading.PointerWalk

universe u

variable {α : Type u} {next : α → Option α}

/-- **The walk from a node ends**, after these nodes. -/
inductive Trail (next : α → Option α) : α → List α → Prop
  /-- nowhere to go -/
  | stop {a : α} : next a = none → Trail next a [a]
  /-- one node further -/
  | step {a b : α} {l : List α} : next a = some b → Trail next b l → Trail next a (a :: l)

/-- The nodes of a walk; `none` if it does not end within so many. -/
def trail (next : α → Option α) : Nat → α → Option (List α)
  | 0, _ => none
  | rounds + 1, a =>
      match next a with
      | none => some [a]
      | some b => (trail next rounds b).map (a :: ·)

/-- The last node of a walk; `none` if it does not end within so many. -/
def follow (next : α → Option α) : Nat → α → Option α
  | 0, _ => none
  | rounds + 1, a =>
      match next a with
      | none => some a
      | some b => follow next rounds b

namespace Trail

/-- A walk is determined by its start. -/
theorem unique {a : α} {l l' : List α} (h : Trail next a l) (h' : Trail next a l') : l = l' := by
  induction h generalizing l' with
  | stop hnone =>
      cases h' with
      | stop _ => rfl
      | step hsome _ => rw [hnone] at hsome; cases hsome
  | step hsome _ ih =>
      cases h' with
      | stop hnone => rw [hnone] at hsome; cases hsome
      | step hsome' hrest =>
          rw [hsome] at hsome'
          cases hsome'
          rw [ih hrest]

/-- The walk from a node on the way is a part of the walk. -/
theorem suffix {a b : α} {l : List α} (h : Trail next a l) (hb : b ∈ l) :
    ∃ l', Trail next b l' ∧ l' <:+ l := by
  induction h with
  | stop hnone =>
      rw [List.mem_singleton.mp hb]
      exact ⟨_, .stop hnone, List.suffix_rfl⟩
  | step hsome hrest ih =>
      rcases List.mem_cons.mp hb with rfl | hmem
      · exact ⟨_, .step hsome hrest, List.suffix_rfl⟩
      · obtain ⟨l', hl', hsuffix⟩ := ih hmem
        exact ⟨l', hl', hsuffix.trans (List.suffix_cons ..)⟩

/-- **A walk that ends passes no node twice.** -/
theorem nodup {a : α} {l : List α} (h : Trail next a l) : l.Nodup := by
  induction h with
  | stop _ => exact List.nodup_singleton _
  | step hsome hrest ih =>
      refine List.nodup_cons.mpr ⟨fun hmem => ?_, ih⟩
      obtain ⟨l', hl', hsuffix⟩ := hrest.suffix hmem
      have hsame := congrArg List.length (hl'.unique (.step hsome hrest))
      have hlength := hsuffix.length_le
      rw [List.length_cons] at hsame
      omega

/-- No more nodes than there are. -/
theorem length_le_card [Fintype α] {a : α} {l : List α} (h : Trail next a l) :
    l.length ≤ Fintype.card α :=
  h.nodup.length_le_card

/-- A walk that ends is found with enough rounds. -/
theorem trail_eq {a : α} {l : List α} (h : Trail next a l) {rounds : Nat}
    (hrounds : l.length ≤ rounds) : trail next rounds a = some l := by
  induction h generalizing rounds with
  | stop hnone =>
      obtain ⟨rounds, rfl⟩ : ∃ r, rounds = r + 1 := ⟨rounds - 1, by
        rw [List.length_singleton] at hrounds
        omega⟩
      simp only [trail, hnone]
  | step hsome _ ih =>
      rw [List.length_cons] at hrounds
      obtain ⟨rounds, rfl⟩ : ∃ r, rounds = r + 1 := ⟨rounds - 1, by omega⟩
      simp only [trail, hsome, ih (by omega : _ ≤ rounds), Option.map_some]

/-- So is its last node. -/
theorem follow_eq {a : α} {l : List α} (h : Trail next a l) {rounds : Nat}
    (hrounds : l.length ≤ rounds) : follow next rounds a = l.getLast? := by
  induction h generalizing rounds with
  | stop hnone =>
      obtain ⟨rounds, rfl⟩ : ∃ r, rounds = r + 1 := ⟨rounds - 1, by
        rw [List.length_singleton] at hrounds
        omega⟩
      simp only [follow, hnone, List.getLast?_singleton]
  | step hsome hrest ih =>
      rw [List.length_cons] at hrounds
      obtain ⟨rounds, rfl⟩ : ∃ r, rounds = r + 1 := ⟨rounds - 1, by omega⟩
      simp only [follow, hsome, ih (by omega : _ ≤ rounds)]
      cases hrest <;> rfl

end Trail

/-! ## Enough rounds -/

/-- What is found is a walk. -/
theorem trail_some {a : α} {l : List α} {rounds : Nat} (h : trail next rounds a = some l) :
    Trail next a l := by
  induction rounds generalizing a l with
  | zero => cases h
  | succ rounds ih =>
      rw [trail] at h
      cases hnext : next a with
      | none =>
          simp only [hnext] at h
          cases h
          exact .stop hnext
      | some b =>
          simp only [hnext] at h
          obtain ⟨l', hl', rfl⟩ := Option.map_eq_some_iff.mp h
          exact .step hnext (ih hl')

/-- Its last node is that of a walk. -/
theorem follow_some {a b : α} {rounds : Nat} (h : follow next rounds a = some b) :
    ∃ l, Trail next a l ∧ l.getLast? = some b := by
  induction rounds generalizing a with
  | zero => cases h
  | succ rounds ih =>
      rw [follow] at h
      cases hnext : next a with
      | none =>
          simp only [hnext] at h
          cases h
          exact ⟨[_], .stop hnext, rfl⟩
      | some c =>
          simp only [hnext] at h
          obtain ⟨l, hl, hlast⟩ := ih h
          refine ⟨a :: l, .step hnext hl, ?_⟩
          cases hl <;> exact hlast

section Fintype

variable [Fintype α]

/-- **A walk that has not ended after as many rounds as there are nodes** never ends. -/
theorem trail_eq_none {a : α} (h : trail next (Fintype.card α) a = none) (rounds : Nat) :
    trail next rounds a = none := by
  rw [Option.eq_none_iff_forall_ne_some]
  intro l hl
  have htrail := trail_some hl
  rw [htrail.trail_eq htrail.length_le_card] at h
  cases h

/-- The same of its last node. -/
theorem follow_eq_none {a : α} (h : follow next (Fintype.card α) a = none) (rounds : Nat) :
    follow next rounds a = none := by
  rw [Option.eq_none_iff_forall_ne_some]
  intro b hb
  obtain ⟨l, hl, hlast⟩ := follow_some hb
  rw [hl.follow_eq hl.length_le_card, hlast] at h
  cases h

end Fintype

/-! ## Walks that end everywhere -/

/-- **All walks end.** -/
def Ends (next : α → Option α) : Prop := ∀ a, ∃ l, Trail next a l

/-- A node that leads to itself is the start of a walk that does not end. -/
theorem not_trail_of_loop {a : α} (h : next a = some a) (l : List α) : ¬ Trail next a l := by
  intro htrail
  cases htrail with
  | stop hnone => rw [h] at hnone; cases hnone
  | step hsome hrest =>
      obtain rfl : a = _ := Option.some.inj (h.symm.trans hsome)
      have hsame := congrArg List.length (hrest.unique (.step h hrest))
      rw [List.length_cons] at hsame
      omega

/-- The last node of a walk is its start, or something leads to it. -/
theorem Trail.getLast_cases {a b : α} {l : List α} (h : Trail next a l)
    (hlast : l.getLast? = some b) : b = a ∨ ∃ c, next c = some b := by
  induction h with
  | stop _ => exact .inl (Option.some.inj hlast).symm
  | @step a c l hsome hrest ih =>
      have hlast' : l.getLast? = some b := by
        cases hrest <;> exact hlast
      rcases ih hlast' with rfl | hled
      · exact .inr ⟨a, hsome⟩
      · exact .inr hled

namespace Ends

/-- Walks that stop earlier end. -/
theorem mono {next' : α → Option α} (h : Ends next)
    (hsub : ∀ a, next' a = none ∨ next' a = next a) : Ends next' := by
  intro a
  obtain ⟨l, hl⟩ := h a
  induction hl with
  | stop hnone => exact ⟨_, .stop ((hsub _).elim id fun hsame => hsame.trans hnone)⟩
  | step hsome _ ih =>
      rcases hsub _ with hstop | hsame
      · exact ⟨_, .stop hstop⟩
      · obtain ⟨l', hl'⟩ := ih
        exact ⟨_, .step (hsame.trans hsome) hl'⟩

/-- As many rounds as there are nodes are enough. -/
theorem exists_trail [Fintype α] (h : Ends next) (a : α) :
    ∃ l, trail next (Fintype.card α) a = some l := by
  obtain ⟨l, hl⟩ := h a
  exact ⟨l, hl.trail_eq hl.length_le_card⟩

/-- The last node of every walk is found. -/
theorem exists_follow [Fintype α] (h : Ends next) (a : α) :
    ∃ b, follow next (Fintype.card α) a = some b := by
  obtain ⟨l, hl⟩ := h a
  rw [hl.follow_eq hl.length_le_card]
  cases hl with
  | stop _ => exact ⟨_, rfl⟩
  | step _ _ => exact ⟨_, List.getLast?_eq_some_getLast (List.cons_ne_nil _ _)⟩

variable [DecidableEq α]

/-- **A node that nothing leads to** may lead anywhere else. -/
theorem update_of_fresh {n : α} {q : Option α} (h : Ends next) (hfresh : ∀ a, next a ≠ some n)
    (hq : q ≠ some n) : Ends (Function.update next n q) := by
  have hothers : ∀ {a l}, Trail next a l → a ≠ n → ∃ l', Trail (Function.update next n q) a l' := by
    intro a l hl
    induction hl with
    | stop hnone =>
        intro hne
        exact ⟨_, .stop (by rw [Function.update_of_ne hne, hnone])⟩
    | @step a b l hsome _ ih =>
        intro hne
        obtain ⟨l', hl'⟩ := ih fun heq => hfresh a (by rw [hsome, heq])
        exact ⟨_, .step (by rw [Function.update_of_ne hne, hsome]) hl'⟩
  intro a
  by_cases heq : a = n
  · subst heq
    cases q with
    | none => exact ⟨_, .stop (Function.update_self ..)⟩
    | some b =>
        obtain ⟨l, hl⟩ := h b
        obtain ⟨l', hl'⟩ := hothers hl fun heq => hq (by rw [heq])
        exact ⟨_, .step (Function.update_self ..) hl'⟩
  · obtain ⟨l, hl⟩ := h a
    exact hothers hl heq

/-- **A node that nothing leads to** can be put behind another one, if it leads where that one
led. -/
theorem insert_behind {n p : α} (h : Ends next) (hfresh : ∀ a, next a ≠ some n) (hne : p ≠ n)
    (hsame : next n = next p) : Ends (Function.update next p (some n)) := by
  have hstep : ∀ {b}, (∀ c, next p = some c →
      ∃ l, Trail (Function.update next p (some n)) c l) → next b = next p →
      b ≠ p → ∃ l, Trail (Function.update next p (some n)) b l := by
    intro b hafter hb hbne
    cases hnext : next p with
    | none => exact ⟨_, .stop (by rw [Function.update_of_ne hbne, hb, hnext])⟩
    | some c =>
        obtain ⟨l, hl⟩ := hafter c hnext
        exact ⟨_, .step (by rw [Function.update_of_ne hbne, hb, hnext]) hl⟩
  -- an old trail stays one, by way of the new link where it comes past `p`
  have hothers : ∀ {a l}, Trail next a l → a ≠ n →
      ∃ l', Trail (Function.update next p (some n)) a l' := by
    intro a l hl
    induction hl with
    | @stop a hnone =>
        intro hane
        by_cases hap : a = p
        · subst hap
          obtain ⟨l', hl'⟩ := hstep (b := n) (fun c hc => by rw [hnone] at hc; cases hc) hsame
            (Ne.symm hne)
          exact ⟨_, .step (Function.update_self ..) hl'⟩
        · exact ⟨_, .stop (by rw [Function.update_of_ne hap, hnone])⟩
    | @step a b l hsome _ ih =>
        intro hane
        have hrest := ih fun heq => hfresh a (by rw [hsome, heq])
        by_cases hap : a = p
        · subst hap
          obtain ⟨l', hl'⟩ := hstep (b := n) (fun c hc => by
            rw [hsome] at hc
            cases hc
            exact hrest) hsame (Ne.symm hne)
          exact ⟨_, .step (Function.update_self ..) hl'⟩
        · obtain ⟨l', hl'⟩ := hrest
          exact ⟨_, .step (by rw [Function.update_of_ne hap, hsome]) hl'⟩
  intro a
  by_cases han : a = n
  · subst han
    refine hstep (fun c hc => ?_) hsame (Ne.symm hne)
    obtain ⟨l, hl⟩ := h c
    exact hothers hl fun heq => hfresh p (by rw [hc, heq])
  · obtain ⟨l, hl⟩ := h a
    exact hothers hl han

/-- **A node can be passed over.** -/
theorem bypass {p t : α} (h : Ends next) (ht : next p = some t) :
    Ends (Function.update next p (next t)) := by
  have hne : t ≠ p := by
    rintro rfl
    obtain ⟨l, hl⟩ := h t
    exact not_trail_of_loop ht l hl
  intro a
  obtain ⟨l, hl⟩ := h a
  induction hl with
  | @stop a hnone =>
      have hap : a ≠ p := by
        rintro rfl
        rw [hnone] at ht
        cases ht
      exact ⟨_, .stop (by rw [Function.update_of_ne hap, hnone])⟩
  | @step a b l hsome _ ih =>
      obtain ⟨l', hl'⟩ := ih
      by_cases hap : a = p
      · subst hap
        obtain rfl : t = b := Option.some.inj (ht.symm.trans hsome)
        cases hl' with
        | stop hnone =>
            rw [Function.update_of_ne hne] at hnone
            exact ⟨_, .stop (by rw [Function.update_self, hnone])⟩
        | step hnext hrest =>
            rw [Function.update_of_ne hne] at hnext
            exact ⟨_, .step (by rw [Function.update_self, hnext]) hrest⟩
      · exact ⟨_, .step (by rw [Function.update_of_ne hap, hsome]) hl'⟩

end Ends

/-! ## Lists that a head leads to -/

/-- **The list from a head on** has these nodes. -/
def From (next : α → Option α) : Option α → List α → Prop
  | none, l => l = []
  | some a, l => Trail next a l

/-- The first node of a list with a property; `none` if the search does not end within so many
rounds. -/
def seek (next : α → Option α) (p : α → Bool) : Nat → Option α → Option (Option α)
  | _, none => some none
  | 0, some _ => none
  | rounds + 1, some a => if p a then some (some a) else seek next p rounds (next a)

namespace From

variable {head : Option α} {l : List α}

/-- A list has no more nodes than there are. -/
theorem length_le_card [Fintype α] (h : From next head l) : l.length ≤ Fintype.card α := by
  cases head with
  | none => simp [show l = [] from h]
  | some a => exact Trail.length_le_card h

/-- **A search ends** with the first node that has the property. -/
theorem seek_eq {p : α → Bool} (h : From next head l) {rounds : Nat} (hrounds : l.length ≤ rounds) :
    seek next p rounds head = some (l.find? p) := by
  cases head with
  | none => simp [seek, show l = [] from h]
  | some a =>
      replace h : Trail next a l := h
      induction h generalizing rounds with
      | @stop a hnone =>
          obtain ⟨rounds, rfl⟩ := Nat.exists_eq_add_of_le' hrounds
          show (if p a then some (some a) else seek next p rounds (next a)) = _
          cases hp : p a <;> simp [hp, hnone, seek]
      | @step a b l hsome _ ih =>
          obtain ⟨rounds, rfl⟩ :=
            Nat.exists_eq_add_of_le' (Nat.le_trans (by simp) hrounds : 1 ≤ rounds)
          have hrest : seek next p rounds (some b) = some (l.find? p) := ih (by simpa using hrounds)
          show (if p a then some (some a) else seek next p rounds (next a)) = _
          cases hp : p a <;> simp [hp, hsome, hrest]

variable [DecidableEq α]

/-- A pointer of a node that is not on the list. -/
theorem update_of_notMem {n : α} {q : Option α} (h : From next head l) (hn : n ∉ l) :
    From (Function.update next n q) head l := by
  cases head with
  | none => exact h
  | some a =>
      replace h : Trail next a l := h
      induction h with
      | @stop a hnone =>
          have hne : a ≠ n := fun heq => hn (by simp [heq])
          exact Trail.stop (by rw [Function.update_of_ne hne, hnone])
      | @step a b l hsome hrest ih =>
          have hne : a ≠ n := fun heq => hn (by simp [heq])
          exact Trail.step (by rw [Function.update_of_ne hne, hsome])
            (ih fun hmem => hn (List.mem_cons_of_mem a hmem))

/-- **A node is put in front.** -/
theorem push {n : α} (h : From next head l) (hn : n ∉ l) :
    From (Function.update next n head) (some n) (n :: l) := by
  cases head with
  | none =>
      obtain rfl : l = [] := h
      exact Trail.stop (Function.update_self ..)
  | some a => exact Trail.step (Function.update_self ..) (h.update_of_notMem hn)

end From

end StopTrading.PointerWalk
