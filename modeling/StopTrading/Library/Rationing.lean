import Mathlib.Algebra.Order.Group.Defs
import Mathlib.Algebra.Order.Group.MinMax
import Mathlib.Algebra.BigOperators.Group.List.Basic
import Mathlib.Algebra.Order.BigOperators.Group.List
import Mathlib.Logic.Function.Basic
import Mathlib.Tactic.Abel
import Mathlib.Tactic.Common

/-!
# Drawing on supplies in order

A demand is met from the supplies of a list of keys, each drawn on as far as it goes before
the next one (`drawAll`).  What comes of it is `Rationed`: the supplies go down by what the
demand goes down, none below zero; a supply is drawn on only when those before it are used
up; and the demand is met unless all of them are.

### What is load-bearing

`Rationed` describes the outcome and forgets the loop.  Its clauses are what a matching engine
promises: nothing is drawn twice (`drawn` is an equation of sums), nothing is overdrawn
(`nonneg`), price priority (`inOrder`), and the demand does not remain while supply does (`met`).
The amounts are of an ordered group, so that supplies can be compared by subtraction, and the
list of keys has no duplicates where that is needed, in the clients: a key met twice would be
empty the second time.
-/

namespace StopTrading.Rationing

universe u v

variable {K : Type u} {M : Type v} [DecidableEq K] [AddCommGroup M] [LinearOrder M]

/-- Draw on the supplies of some keys: the supplies and the demand that are left. -/
def drawAll : List K → (K → M) → M → (K → M) × M
  | [], supply, demand => (supply, demand)
  | k :: ks, supply, demand =>
      drawAll ks (Function.update supply k (supply k - min demand (supply k)))
        (demand - min demand (supply k))

/-- **A demand is rationed** over the supplies of some keys in their order. -/
structure Rationed (ks : List K) (supply supply' : K → M) (demand demand' : M) : Prop where
  /-- no more is drawn than was demanded -/
  demand_nonneg : 0 ≤ demand'
  /-- the demand goes down -/
  demand_le : demand' ≤ demand
  /-- no supply is overdrawn -/
  nonneg : ∀ k ∈ ks, 0 ≤ supply' k
  /-- supplies go down -/
  le : ∀ k, supply' k ≤ supply k
  /-- other supplies stay as they are -/
  untouched : ∀ k ∉ ks, supply' k = supply k
  /-- the supplies lose what the demand loses -/
  drawn : (ks.map supply').sum + demand = (ks.map supply).sum + demand'
  /-- a later supply is touched only when the earlier ones are used up -/
  inOrder : ks.Pairwise fun k k' => supply' k' ≠ supply k' → supply' k = 0
  /-- the demand is met, or there is nothing left -/
  met : demand' = 0 ∨ ∀ k ∈ ks, supply' k = 0

/-- Nothing is drawn for no demand. -/
theorem drawAll_zero {ks : List K} {supply : K → M} (hsupply : ∀ k ∈ ks, 0 ≤ supply k) :
    drawAll ks supply 0 = (supply, 0) := by
  induction ks with
  | nil => rfl
  | cons k ks ih =>
      have hmin : min 0 (supply k) = 0 := min_eq_left (hsupply k List.mem_cons_self)
      rw [drawAll, hmin, sub_zero, sub_zero, Function.update_eq_self]
      exact ih fun k' hk' => hsupply k' (List.mem_cons_of_mem k hk')

variable [IsOrderedAddMonoid M]

/-- Rationing what the first supply leaves; it is used up, or nothing more is drawn. -/
theorem Rationed.cons {k : K} {ks : List K} (hk : k ∉ ks) {supply supply' : K → M}
    {demand demand' x : M} (hx : 0 ≤ x) (hxk : x ≤ supply k)
    (h : Rationed ks (Function.update supply k (supply k - x)) supply' (demand - x) demand')
    (hcases : supply' k = 0 ∨ demand' = 0 ∧ ∀ k' ∈ ks, supply' k' = supply k') :
    Rationed (k :: ks) supply supply' demand demand' := by
  have hother : ∀ k' ∈ ks, Function.update supply k (supply k - x) k' = supply k' :=
    fun k' hk' => Function.update_of_ne (fun heq : k' = k => hk (heq ▸ hk')) _ _
  have hhead : supply' k = supply k - x := by rw [h.untouched k hk, Function.update_self]
  refine ⟨h.demand_nonneg, h.demand_le.trans (sub_le_self _ hx), ?_, fun k' => ?_,
    fun k' hk' => ?_, ?_, ?_, ?_⟩
  · refine List.forall_mem_cons.mpr ⟨?_, h.nonneg⟩
    rw [hhead]
    exact sub_nonneg.mpr hxk
  · by_cases heq : k' = k
    · rw [heq, hhead]
      exact sub_le_self _ hx
    · exact (h.le k').trans_eq (Function.update_of_ne heq _ _)
  · obtain ⟨hne, hnot⟩ := not_or.mp (mt List.mem_cons.mpr hk')
    rw [h.untouched k' hnot, Function.update_of_ne hne]
  · have hdrawn := h.drawn
    rw [List.map_congr_left hother] at hdrawn
    rw [List.map_cons, List.sum_cons, List.map_cons, List.sum_cons, hhead]
    calc supply k - x + (ks.map supply').sum + demand
        = supply k + ((ks.map supply').sum + (demand - x)) := by abel
      _ = supply k + (ks.map supply).sum + demand' := by rw [hdrawn, add_assoc]
  · refine List.pairwise_cons.mpr ⟨fun k' hk' hdrawn => ?_, h.inOrder.imp_of_mem ?_⟩
    · rcases hcases with hzero | ⟨-, hsame⟩
      · exact hzero
      · exact absurd (hsame k' hk') hdrawn
    · intro a b _ hb hrel hdrawn
      exact hrel (by rwa [hother b hb])
  · rcases hcases with hzero | ⟨hmet, -⟩
    · exact h.met.imp_right fun hall => List.forall_mem_cons.mpr ⟨hzero, hall⟩
    · exact Or.inl hmet

/-- **Drawing in order rations the demand**; by induction on the keys. -/
theorem rationed_drawAll {ks : List K} (hnodup : ks.Nodup) {supply : K → M} {demand : M}
    (hdemand : 0 ≤ demand) (hsupply : ∀ k ∈ ks, 0 ≤ supply k) :
    Rationed ks supply (drawAll ks supply demand).1 demand (drawAll ks supply demand).2 := by
  induction ks generalizing supply demand with
  | nil =>
      exact ⟨hdemand, le_rfl, nofun, fun _ => le_rfl, fun _ _ => rfl, rfl, List.Pairwise.nil,
        Or.inr nofun⟩
  | cons k ks ih =>
      obtain ⟨hk, hks⟩ := List.nodup_cons.mp hnodup
      have hkpos : 0 ≤ supply k := hsupply k List.mem_cons_self
      have hother : ∀ x, ∀ k' ∈ ks, Function.update supply k x k' = supply k' :=
        fun x k' hk' => Function.update_of_ne (fun heq : k' = k => hk (heq ▸ hk')) _ _
      have hpos : ∀ x, ∀ k' ∈ ks, 0 ≤ Function.update supply k x k' := by
        intro x k' hk'
        rw [hother x k' hk']
        exact hsupply k' (List.mem_cons_of_mem k hk')
      have hrest := ih hks (sub_nonneg.mpr (min_le_left demand (supply k)))
        (hpos (supply k - min demand (supply k)))
      rw [drawAll]
      refine hrest.cons hk (le_min hdemand hkpos) (min_le_right _ _) ?_
      rcases min_choice demand (supply k) with hmin | hmin
      · -- The demand is met, and nothing more is drawn.
        rw [hmin, sub_self, drawAll_zero (hpos _)]
        exact Or.inr ⟨rfl, hother _⟩
      · rw [hrest.untouched k hk, hmin, sub_self, Function.update_self]
        exact Or.inl rfl

/-- The first supply is drawn on alone. -/
theorem drawAll_head {k : K} {ks : List K} (hnodup : (k :: ks).Nodup) {supply : K → M} (demand : M)
    (hsupply : ∀ k' ∈ k :: ks, 0 ≤ supply k') :
    (drawAll (k :: ks) supply demand).1 k = supply k - min demand (supply k) := by
  obtain ⟨hk, hks⟩ := List.nodup_cons.mp hnodup
  rw [drawAll, (rationed_drawAll hks (sub_nonneg.mpr (min_le_left _ _)) ?_).untouched k hk,
    Function.update_self]
  intro k' hk'
  rw [Function.update_of_ne (fun heq : k' = k => hk (heq ▸ hk'))]
  exact hsupply k' (List.mem_cons_of_mem k hk')

omit [DecidableEq K] in
/-- **Enough supply meets the demand.** -/
theorem Rationed.demand_eq_zero {ks : List K} {supply supply' : K → M} {demand demand' : M}
    (h : Rationed ks supply supply' demand demand') (henough : demand ≤ (ks.map supply).sum) :
    demand' = 0 := by
  rcases h.met with hmet | hall
  · exact hmet
  · have hnone : (ks.map supply').sum = 0 :=
      List.sum_eq_zero fun x hx => by
        obtain ⟨k, hk, rfl⟩ := List.mem_map.mp hx
        exact hall k hk
    have hdrawn := h.drawn
    rw [hnone, zero_add] at hdrawn
    refine le_antisymm ?_ h.demand_nonneg
    exact (add_le_iff_nonpos_right _).mp (hdrawn.symm.le.trans henough)

end StopTrading.Rationing
