import StopTrading.Library.Walks
import Mathlib

/-!
# Shortest walks and negative cycles

A graph is a list of weighted edges.  Distances from a start are `⊤` where nothing is known yet,
and an edge that shortens the way to its target is relaxed in place.

* `Within.relaxAll` — a pass over the edges, in any order, takes the distances below one more edge
  of every walk; where a pass changes nothing they are below all walks (`Stable.within`).
* `exists_negativeCycle` — an edge that can still be relaxed when the distances are below all
  walks that visit no node twice betrays a negative cycle, also one that visits no node twice.
* `weight_closed` — where no edge can be relaxed by more than `ε`, a closed walk weighs at least
  `-ε` for each of its edges.

### What is load-bearing

Three notions are kept apart.  `Attained` bounds distances from below by walks: it holds of every
intermediate state, so a distance is never the result of an edge that is not there.  `Within k`
bounds them from above, and a pass takes `k` to `k + 1`.  `Stable` is about the edges alone.

An algorithm of this kind is usually proved for a fixed order of the edges and with as many
passes as there are nodes.  Neither is needed here: `Within.relaxAll` takes any list that
contains the edges, so that every pass may use another order, and a program that stops early
because nothing changed is covered by `Stable`.  The converse, that a remaining relaxation shows
a negative cycle, is where walks that visit a node twice have to be cut (`exists_short`).

The slack `ε` is for programs that compare with a tolerance.  It costs `ε` an edge, which
`weight_closed` makes precise.
-/

namespace StopTrading.BellmanFord

open Walks (isWalk_append)

universe u v

variable {V : Type u} {K : Type v}

/-- A weighted edge. -/
structure Edge (V : Type u) (K : Type v) where
  source : V
  target : V
  weight : K

/-- The edges `l` lead from `u` to `v`. -/
abbrev IsWalk (E : List (Edge V K)) (u : V) (l : List (Edge V K)) (v : V) : Prop :=
  Walks.IsWalk Edge.source Edge.target E u l v

/-- The sum of the weights. -/
def weight [AddCommMonoid K] (l : List (Edge V K)) : K := (l.map Edge.weight).sum

/-- The empty walk weighs nothing, -/
theorem weight_nil [AddCommMonoid K] : weight ([] : List (Edge V K)) = 0 := rfl

/-- a walk weighs its first edge and the rest, -/
theorem weight_cons [AddCommMonoid K] (e : Edge V K) (l : List (Edge V K)) :
    weight (e :: l) = e.weight + weight l := List.sum_cons

/-- and weights add up along a walk. -/
theorem weight_append [AddCommMonoid K] (l l' : List (Edge V K)) :
    weight (l ++ l') = weight l + weight l' := by
  rw [weight, List.map_append, List.sum_append]
  rfl

/-! ## Cycles -/

variable [AddCommGroup K] [LinearOrder K]

/-- **A negative cycle** that can be reached from `s` and visits no node twice. -/
structure NegativeCycle (E : List (Edge V K)) (s : V) : Prop where
  /-- a walk from `s` to a node of the cycle, and the cycle -/
  exists_walk : ∃ p x c, IsWalk E s p x ∧ IsWalk E x c x ∧ (c.map Edge.source).Nodup ∧ weight c < 0

section Cycles

variable [IsOrderedAddMonoid K] {E : List (Edge V K)} {s : V}

/-- A negative closed walk contains a negative cycle. -/
theorem NegativeCycle.of_closed {p c : List (Edge V K)} {x : V} (hp : IsWalk E s p x)
    (hc : IsWalk E x c x) (hneg : weight c < 0) : NegativeCycle E s := by
  induction hn : c.length using Nat.strong_induction_on generalizing p c x with
  | _ n ih =>
    by_cases hdup : (c.map Edge.source).Nodup
    · exact ⟨p, x, c, hp, hc, hdup, hneg⟩
    · obtain ⟨a, b, r, y, rfl, hb, hr, hay, hby, hry⟩ := hc.exists_loop hdup
      rw [List.length_append, List.length_append] at hn
      have hbpos := List.length_pos_iff.mpr hb
      have hrpos := List.length_pos_iff.mpr hr
      rw [weight_append, weight_append] at hneg
      by_cases hloop : weight b < 0
      · exact ih b.length (by omega) (hp.append hay) hby hloop rfl
      · -- the walk without its loop is still negative
        have hrest : weight (a ++ r) < 0 := by
          rw [weight_append]
          have hle : weight a + weight r ≤ weight a + (weight b + weight r) :=
            add_le_add le_rfl (le_add_of_nonneg_left (not_lt.mp hloop))
          exact hle.trans_lt hneg
        refine ih (a ++ r).length ?_ hp (hay.append hry) hrest rfl
        rw [List.length_append]
        omega

/-- **Without a negative cycle**, a walk can be replaced by one that is no heavier and visits no
node twice. -/
theorem exists_short (hno : ¬ NegativeCycle E s) {nodes : List V} (hs : s ∈ nodes)
    (hnodes : ∀ e ∈ E, e.source ∈ nodes ∧ e.target ∈ nodes) {l : List (Edge V K)} {v : V}
    (h : IsWalk E s l v) :
    ∃ l', IsWalk E s l' v ∧ l'.length < nodes.length ∧ weight l' ≤ weight l := by
  induction hn : l.length using Nat.strong_induction_on generalizing l with
  | _ n ih =>
    have hloop : ∀ {a b c : List (Edge V K)} {x : V}, l = a ++ (b ++ c) → b ≠ [] →
        IsWalk E s a x → IsWalk E x b x → IsWalk E x c v →
        ∃ l', IsWalk E s l' v ∧ l'.length < nodes.length ∧ weight l' ≤ weight l := by
      rintro a b c x rfl hb hax hbx hcv
      have hnonneg : 0 ≤ weight b := not_lt.mp fun hneg => hno (.of_closed hax hbx hneg)
      rw [List.length_append, List.length_append] at hn
      have hbpos := List.length_pos_iff.mpr hb
      have hshorter : (a ++ c).length < n := by
        rw [List.length_append]
        omega
      obtain ⟨l', hl', hlen, hle⟩ := ih _ hshorter (hax.append hcv) rfl
      refine ⟨l', hl', hlen, hle.trans ?_⟩
      rw [weight_append, weight_append, weight_append]
      exact add_le_add le_rfl (le_add_of_nonneg_left hnonneg)
    by_cases hdup : (l.map Edge.source).Nodup
    · by_cases hend : v ∈ l.map Edge.source
      · -- it comes back to its end
        obtain ⟨a, b, hl, hb, hav, hbv⟩ := h.split hend
        rw [← List.append_nil b] at hl
        exact hloop hl hb hav hbv rfl
      · refine ⟨l, h, ?_, le_rfl⟩
        have hsub : l.map Edge.source ++ [v] ⊆ nodes := by
          intro x hx
          rcases List.mem_append.mp hx with hx | hx
          · obtain ⟨e, he, rfl⟩ := List.mem_map.mp hx
            exact (hnodes e (h.subset he)).1
          · obtain rfl := List.mem_singleton.mp hx
            by_cases hne : l = []
            · subst hne
              obtain rfl := id h
              exact hs
            · obtain ⟨e, he, rfl⟩ := List.mem_map.mp (h.end_mem hne)
              exact (hnodes e (h.subset he)).2
        have hnodup : (l.map Edge.source ++ [v]).Nodup := by
          rw [← List.concat_eq_append]
          exact hdup.concat hend
        have hle := hnodup.length_le_of_subset hsub
        rwa [List.length_append, List.length_map, List.length_singleton] at hle
    · obtain ⟨a, b, c, x, hl, hb, -, hax, hbx, hcv⟩ := h.exists_loop hdup
      exact hloop hl hb hax hbx hcv

end Cycles

/-! ## Distances -/

/-- Every distance is that of a walk. -/
def Attained (E : List (Edge V K)) (s : V) (d : V → WithTop K) : Prop :=
  ∀ v, d v ≠ ⊤ → ∃ l, IsWalk E s l v ∧ d v = (weight l : K)

/-- The distances are below the walks with at most `k` edges. -/
def Within (E : List (Edge V K)) (s : V) (k : Nat) (d : V → WithTop K) : Prop :=
  ∀ l v, IsWalk E s l v → l.length ≤ k → d v ≤ (weight l : K)

/-- No edge can be relaxed by more than `ε`. -/
def Stable (E : List (Edge V K)) (ε : K) (d : V → WithTop K) : Prop :=
  ∀ e ∈ E, d e.target ≤ d e.source + ((e.weight + ε : K) : WithTop K)

section Distances

variable {E : List (Edge V K)} {s : V} {d : V → WithTop K} {ε : K}

/-- The empty walk is the only one without an edge. -/
theorem Within.zero (hs : d s ≤ 0) : Within E s 0 d := by
  intro l v hl hlen
  obtain rfl := List.length_eq_zero_iff.mp (Nat.le_zero.mp hlen)
  obtain rfl := id hl
  exact hs

variable [IsOrderedAddMonoid K]

/-- Where no edge can be relaxed by more than `ε`, neither can a walk by more than `ε` for each
of its edges. -/
theorem Stable.le_walk (h : Stable E ε d) {l : List (Edge V K)} {u v : V} (hl : IsWalk E u l v) :
    d v ≤ d u + ((weight l + l.length • ε : K) : WithTop K) := by
  induction l generalizing u with
  | nil =>
      obtain rfl := id hl
      rw [weight_nil, List.length_nil, zero_smul, add_zero, WithTop.coe_zero, add_zero]
  | cons e l ih =>
      obtain ⟨he, rfl, hrest⟩ := hl
      calc d v ≤ d e.target + ((weight l + l.length • ε : K) : WithTop K) := ih hrest
        _ ≤ d e.source + ((e.weight + ε : K) : WithTop K) +
            ((weight l + l.length • ε : K) : WithTop K) := add_le_add (h e he) le_rfl
        _ = d e.source + ((weight (e :: l) + (e :: l).length • ε : K) : WithTop K) := by
          rw [add_assoc, ← WithTop.coe_add, weight_cons, List.length_cons, succ_nsmul]
          congr 2
          abel

/-- Distances that no edge shortens are below all walks. -/
theorem Stable.within (h : Stable E 0 d) (hs : d s ≤ 0) (k : Nat) : Within E s k d := by
  intro l v hl _
  have hle := h.le_walk hl
  rw [smul_zero, add_zero] at hle
  refine hle.trans ((add_le_add hs le_rfl).trans ?_)
  rw [zero_add]

/-- **Closed walks where no edge can be relaxed by more than `ε`.** -/
theorem Stable.weight_closed (h : Stable E ε d) (hs : d s ≠ ⊤) {p c : List (Edge V K)} {x : V}
    (hp : IsWalk E s p x) (hc : IsWalk E x c x) : 0 ≤ weight c + c.length • ε := by
  have hx : d x ≠ ⊤ :=
    ((h.le_walk hp).trans_lt
      (WithTop.add_lt_top.mpr ⟨lt_top_iff_ne_top.mpr hs, WithTop.coe_lt_top _⟩)).ne
  obtain ⟨y, hy⟩ := WithTop.ne_top_iff_exists.mp hx
  have hround := h.le_walk hc
  rw [← hy, ← WithTop.coe_add, WithTop.coe_le_coe] at hround
  exact le_of_add_le_add_left ((add_zero y).trans_le hround)

/-- **An edge that can still be relaxed** betrays a negative cycle. -/
theorem exists_negativeCycle {nodes : List V} (hs : s ∈ nodes)
    (hnodes : ∀ e ∈ E, e.source ∈ nodes ∧ e.target ∈ nodes) (hattained : Attained E s d)
    (hwithin : Within E s (nodes.length - 1) d) {e : Edge V K} (he : e ∈ E)
    (hshorter : d e.source + e.weight < d e.target) : NegativeCycle E s := by
  by_contra hno
  obtain ⟨l, hl, hdist⟩ := hattained e.source (WithTop.add_ne_top.mp hshorter.ne_top).1
  have hle : IsWalk E s (l ++ [e]) e.target := hl.append ⟨he, rfl, rfl⟩
  obtain ⟨l', hl', hlen, hweight⟩ := exists_short hno hs hnodes hle
  rw [hdist, ← WithTop.coe_add] at hshorter
  rw [weight_append, weight_cons, weight_nil, add_zero, ← WithTop.coe_le_coe] at hweight
  exact absurd ((hwithin l' _ hl' (Nat.le_sub_one_of_lt hlen)).trans hweight)
    (not_le.mpr hshorter)

end Distances

/-! ## Relaxing -/

section Relax

variable [DecidableEq V]

/-- Relax one edge: the distance over it is taken if it is shorter. -/
def relax (d : V → WithTop K) (e : Edge V K) : V → WithTop K :=
  if d e.source + e.weight < d e.target then Function.update d e.target (d e.source + e.weight)
  else d

/-- Relax one edge after the other. -/
def relaxAll (d : V → WithTop K) (es : List (Edge V K)) : V → WithTop K := es.foldl relax d

variable {E es : List (Edge V K)} {s : V} {d : V → WithTop K} {e : Edge V K}

/-- Relaxing makes no distance longer, -/
theorem relax_le (d : V → WithTop K) (e : Edge V K) (v : V) : relax d e v ≤ d v := by
  unfold relax
  split
  · rename_i hshorter
    by_cases hv : v = e.target
    · subst hv
      rw [Function.update_self]
      exact hshorter.le
    · rw [Function.update_of_ne hv]
  · exact le_rfl

/-- and the target is no further than over the edge. -/
theorem relax_target_le (d : V → WithTop K) (e : Edge V K) :
    relax d e e.target ≤ d e.source + e.weight := by
  unfold relax
  split
  · rw [Function.update_self]
  · rename_i hlonger
    exact not_lt.mp hlonger

/-- A pass makes no distance longer. -/
theorem relaxAll_le (d : V → WithTop K) (es : List (Edge V K)) (v : V) :
    relaxAll d es v ≤ d v := by
  induction es generalizing d with
  | nil => exact le_rfl
  | cons e es ih => exact (ih (relax d e)).trans (relax_le d e v)

/-- A relaxed distance is that of a walk with one more edge. -/
theorem Attained.relax (h : Attained E s d) (he : e ∈ E) : Attained E s (relax d e) := by
  intro v hv
  unfold BellmanFord.relax at hv ⊢
  split at hv
  · rename_i hshorter
    rw [if_pos hshorter]
    by_cases hvt : v = e.target
    · subst hvt
      obtain ⟨l, hl, hdist⟩ := h e.source (WithTop.add_ne_top.mp hshorter.ne_top).1
      refine ⟨l ++ [e], hl.append ⟨he, rfl, rfl⟩, ?_⟩
      rw [Function.update_self, hdist, weight_append, weight_cons, weight_nil, add_zero,
        WithTop.coe_add]
    · rw [Function.update_of_ne hvt] at hv ⊢
      exact h v hv
  · rename_i hlonger
    rw [if_neg hlonger]
    exact h v hv

/-- So are the distances after a pass over edges of the graph. -/
theorem Attained.relaxAll (h : Attained E s d) (hes : es ⊆ E) :
    Attained E s (relaxAll d es) := by
  induction es generalizing d with
  | nil => exact h
  | cons e es ih =>
      rw [List.cons_subset] at hes
      exact ih (h.relax hes.1) hes.2

variable [IsOrderedAddMonoid K]

/-- An edge of the pass is relaxed from the distances before it, or from shorter ones. -/
theorem relaxAll_target_le (he : e ∈ es) : relaxAll d es e.target ≤ d e.source + e.weight := by
  induction es generalizing d with
  | nil => cases he
  | cons e' es ih =>
      rcases List.mem_cons.mp he with rfl | he
      · exact (relaxAll_le (relax d e) es e.target).trans (relax_target_le d e)
      · exact (ih he).trans (add_le_add (relax_le d e' e.source) le_rfl)

/-- **One pass is one more edge.** -/
theorem Within.relaxAll {k : Nat} (h : Within E s k d) (hs : d s ≤ 0) (hes : E ⊆ es) :
    Within E s (k + 1) (relaxAll d es) := by
  intro l v hl hlen
  rcases List.eq_nil_or_concat' l with rfl | ⟨l, e, rfl⟩
  · obtain rfl := id hl
    exact (relaxAll_le d es s).trans hs
  · obtain ⟨x, hx, he, rfl, rfl⟩ := isWalk_append.mp hl
    rw [List.length_append, List.length_singleton] at hlen
    rw [weight_append, weight_cons, weight_nil, add_zero, WithTop.coe_add]
    exact (relaxAll_target_le (hes he)).trans
      (add_le_add (h l _ hx (Nat.le_of_succ_le_succ hlen)) le_rfl)

/-- Where a pass changes nothing, no edge shortens a distance. -/
theorem stable_of_relaxAll_eq (hes : E ⊆ es) (h : BellmanFord.relaxAll d es = d) :
    Stable E 0 d := by
  intro e he
  have hle := relaxAll_target_le (d := d) (hes he)
  rwa [h, ← add_zero e.weight] at hle

end Relax

end StopTrading.BellmanFord
