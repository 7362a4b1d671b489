import Mathlib

/-!
# Walks

A graph is a list of edges, which may have several between the same two nodes, and a walk the list
of its edges.

* `IsWalk.exists_loop` — a walk that leaves a node twice goes round in between.
* `paths` — the depth-first search for the walks to a node that visit no node twice, `mem_paths`
  what it finds.
* `nodup_nodes_iff` — two of the walks found visit the same nodes unless each edge is the only one
  between its ends.

### Edges, not nodes

A walk is its edges, because between two nodes there may be several and a program that looks for
routes meets each of them.  What such a program often keeps of a walk is only the nodes.
`nodup_nodes_iff` says when nothing is lost by this, and it is exact: a second edge between two
nodes of a walk gives a second walk with the same nodes (`count_paths`).
-/

namespace StopTrading.Walks

universe u v

variable {V : Type u} {A : Type v} (source target : A → V) (E : List A)

/-- The edges `l` lead from `u` to `v`. -/
def IsWalk : (u : V) → (l : List A) → (v : V) → Prop
  | u, [], v => u = v
  | u, e :: l, v => e ∈ E ∧ source e = u ∧ IsWalk (target e) l v

section Walk

variable {source target E} {u v x : V} {l l' : List A}

/-- A walk in two parts. -/
theorem isWalk_append :
    IsWalk source target E u (l ++ l') v ↔
      ∃ x, IsWalk source target E u l x ∧ IsWalk source target E x l' v := by
  induction l generalizing u with
  | nil => exact ⟨fun h => ⟨u, rfl, h⟩, fun ⟨x, hx, h⟩ => hx.symm ▸ h⟩
  | cons e l ih =>
      constructor
      · rintro ⟨he, hsource, hrest⟩
        obtain ⟨x, hx, hrest⟩ := ih.mp hrest
        exact ⟨x, ⟨he, hsource, hx⟩, hrest⟩
      · rintro ⟨x, ⟨he, hsource, hx⟩, hrest⟩
        exact ⟨he, hsource, ih.mpr ⟨x, hx, hrest⟩⟩

/-- Two walks, one after the other. -/
theorem IsWalk.append (h : IsWalk source target E u l x) (h' : IsWalk source target E x l' v) :
    IsWalk source target E u (l ++ l') v :=
  isWalk_append.mpr ⟨x, h, h'⟩

/-- The edges of a walk are edges of the graph. -/
theorem IsWalk.subset (h : IsWalk source target E u l v) : l ⊆ E := by
  induction l generalizing u with
  | nil => exact List.nil_subset E
  | cons e l ih => exact List.cons_subset.mpr ⟨h.1, ih h.2.2⟩

/-- A walk that moves enters its end. -/
theorem IsWalk.end_mem (h : IsWalk source target E u l v) (hne : l ≠ []) : v ∈ l.map target := by
  obtain rfl | ⟨l₀, e, rfl⟩ := List.eq_nil_or_concat' l
  · exact absurd rfl hne
  · obtain ⟨y, -, -, -, rfl⟩ := isWalk_append.mp h
    exact List.mem_map_of_mem (List.mem_append_right _ (List.mem_singleton_self e))

/-- A walk is cut at a node that it leaves. -/
theorem IsWalk.split (h : IsWalk source target E u l v) (hx : x ∈ l.map source) :
    ∃ a b, l = a ++ b ∧ b ≠ [] ∧ IsWalk source target E u a x ∧
      IsWalk source target E x b v := by
  obtain ⟨e, he, rfl⟩ := List.mem_map.mp hx
  obtain ⟨a, b, rfl⟩ := List.append_of_mem he
  obtain ⟨y, ha, hb⟩ := isWalk_append.mp h
  obtain ⟨-, rfl, -⟩ := id hb
  exact ⟨a, e :: b, rfl, List.cons_ne_nil e b, ha, hb⟩

/-- **A walk that leaves a node twice** goes round in between. -/
theorem IsWalk.exists_loop (h : IsWalk source target E u l v) (hdup : ¬ (l.map source).Nodup) :
    ∃ a b c x, l = a ++ (b ++ c) ∧ b ≠ [] ∧ c ≠ [] ∧ IsWalk source target E u a x ∧
      IsWalk source target E x b x ∧ IsWalk source target E x c v := by
  induction l generalizing u with
  | nil => exact absurd List.nodup_nil hdup
  | cons e l ih =>
      obtain ⟨he, rfl, hrest⟩ := h
      rw [List.map_cons, List.nodup_cons] at hdup
      by_cases hagain : source e ∈ l.map source
      · obtain ⟨b, c, rfl, hc, hb, hcv⟩ := hrest.split hagain
        exact ⟨[], e :: b, c, source e, rfl, List.cons_ne_nil e b, hc, rfl, ⟨he, rfl, hb⟩, hcv⟩
      · obtain ⟨a, b, c, x, rfl, hb, hc, hax, hbx, hcv⟩ := ih hrest fun hn => hdup ⟨hagain, hn⟩
        exact ⟨e :: a, b, c, x, rfl, hb, hc, ⟨he, rfl, hax⟩, hbx, hcv⟩

end Walk

/-! ## Searching for walks -/

variable [DecidableEq V]

/-- The walks over an edge from `u` to a node that was not visited, and on from there. -/
def explore (next : V → List (List A)) (u : V) (visited : List V) : List (List A) :=
  (E.filter fun e => source e = u).flatMap fun e =>
    if target e ∈ u :: visited then [] else (next (target e)).map fun l => e :: l

/-- **The walks to a goal** with at most `limit` edges that visit no node twice, and none of those
already visited. -/
def paths (goal : V) : (limit : Nat) → (u : V) → (visited : List V) → List (List A)
  | 0, u, _ => if u = goal then [[]] else []
  | limit + 1, u, visited =>
      if u = goal then [[]]
      else explore source target E (fun v => paths goal limit v (u :: visited)) u visited

/-- How many edges lead the way that `e` leads. -/
def multiplicity (e : A) : Nat := E.countP fun e' => source e' = source e ∧ target e' = target e

section Paths

variable {source target E} {goal u : V} {visited : List V} {limit : Nat} {P : List A}

/-- A walk over a first edge and on. -/
theorem mem_explore {next : V → List (List A)} :
    P ∈ explore source target E next u visited ↔
      ∃ e l, P = e :: l ∧ e ∈ E ∧ source e = u ∧ target e ∉ u :: visited ∧ l ∈ next (target e) := by
  rw [explore, List.mem_flatMap]
  constructor
  · rintro ⟨e, he, hP⟩
    obtain ⟨hmem, hsource⟩ := List.mem_filter.mp he
    split at hP
    · cases hP
    · rename_i hnew
      obtain ⟨l, hl, rfl⟩ := List.mem_map.mp hP
      exact ⟨e, l, rfl, hmem, of_decide_eq_true hsource, hnew, hl⟩
  · rintro ⟨e, l, rfl, hmem, hsource, hnew, hl⟩
    refine ⟨e, List.mem_filter.mpr ⟨hmem, decide_eq_true hsource⟩, ?_⟩
    rw [if_neg hnew]
    exact List.mem_map_of_mem hl

/-- A walk to the goal that visits no node twice and none of those already visited. -/
structure IsPath (source target : A → V) (E : List A) (goal u : V) (visited : List V)
    (P : List A) : Prop where
  /-- it leads to the goal -/
  walk : IsWalk source target E u P goal
  /-- through no node twice -/
  nodup : (u :: P.map target).Nodup
  /-- and through none that was visited -/
  fresh : ∀ e ∈ P, target e ∉ visited

omit [DecidableEq V] in
/-- The same for paths. -/
theorem isPath_cons {e : A} {l : List A} :
    IsPath source target E goal u visited (e :: l) ↔
      e ∈ E ∧ source e = u ∧ target e ∉ u :: visited ∧
        IsPath source target E goal (target e) (u :: visited) l := by
  constructor
  · rintro ⟨⟨he, hsource, hwalk⟩, hnodup, hfresh⟩
    rw [List.forall_mem_cons] at hfresh
    rw [List.map_cons, List.nodup_cons, List.mem_cons, not_or] at hnodup
    obtain ⟨⟨hne, hnot⟩, hnodup⟩ := hnodup
    refine ⟨he, hsource, ?_, hwalk, hnodup, fun e' he' => ?_⟩
    · rw [List.mem_cons, not_or]
      exact ⟨Ne.symm hne, hfresh.1⟩
    · rw [List.mem_cons, not_or]
      exact ⟨fun heq => hnot (heq ▸ List.mem_map_of_mem he'), hfresh.2 e' he'⟩
  · rintro ⟨he, hsource, hnew, hwalk, hnodup, hfresh⟩
    rw [List.mem_cons, not_or] at hnew
    refine ⟨⟨he, hsource, hwalk⟩, ?_, List.forall_mem_cons.mpr ⟨hnew.2, fun e' he' => ?_⟩⟩
    · rw [List.map_cons, List.nodup_cons, List.mem_cons, not_or]
      refine ⟨⟨Ne.symm hnew.1, fun hmem => ?_⟩, hnodup⟩
      obtain ⟨e', he', heq⟩ := List.mem_map.mp hmem
      exact hfresh e' he' (heq ▸ List.mem_cons_self)
    · exact fun hmem => hfresh e' he' (List.mem_cons_of_mem u hmem)

omit [DecidableEq V] in
/-- At the goal only the empty walk visits no node twice. -/
theorem isPath_goal : IsPath source target E goal goal visited P ↔ P = [] := by
  constructor
  · intro h
    by_contra hne
    exact (List.nodup_cons.mp h.nodup).1 (h.walk.end_mem hne)
  · rintro rfl
    exact ⟨rfl, List.nodup_singleton goal, fun e he => absurd he List.not_mem_nil⟩

omit [DecidableEq V] in
/-- At the goal there is the empty path. -/
theorem mem_singleton_nil :
    P ∈ [([] : List A)] ↔ IsPath source target E goal goal visited P ∧ P.length ≤ limit := by
  rw [List.mem_singleton, isPath_goal]
  refine ⟨fun h => ⟨h, ?_⟩, fun h => h.1⟩
  rw [h]
  exact Nat.zero_le limit

/-- **What the search finds.** -/
theorem mem_paths :
    P ∈ paths source target E goal limit u visited ↔
      IsPath source target E goal u visited P ∧ P.length ≤ limit := by
  induction limit generalizing u visited P with
  | zero =>
      rw [paths]
      split
      · rename_i heq
        subst heq
        exact mem_singleton_nil
      · rename_i hne
        refine iff_of_false List.not_mem_nil ?_
        rintro ⟨hpath, hlength⟩
        obtain rfl := List.length_eq_zero_iff.mp (Nat.le_zero.mp hlength)
        exact hne hpath.walk
  | succ limit ih =>
      rw [paths]
      split
      · rename_i heq
        subst heq
        exact mem_singleton_nil
      · rename_i hne
        rw [mem_explore]
        constructor
        · rintro ⟨e, l, rfl, he, hsource, hnew, hl⟩
          obtain ⟨hpath, hlength⟩ := ih.mp hl
          exact ⟨isPath_cons.mpr ⟨he, hsource, hnew, hpath⟩, Nat.succ_le_succ hlength⟩
        · rintro ⟨hpath, hlength⟩
          cases P with
          | nil => exact absurd hpath.walk hne
          | cons e l =>
              obtain ⟨he, hsource, hnew, hrest⟩ := isPath_cons.mp hpath
              exact ⟨e, l, rfl, he, hsource, hnew, ih.mpr ⟨hrest, Nat.le_of_succ_le_succ hlength⟩⟩

/-- The search from a node that is not the goal. -/
theorem mem_explore_paths :
    P ∈ explore source target E (fun v => paths source target E goal limit v (u :: visited)) u
        visited ↔
      IsPath source target E goal u visited P ∧ P ≠ [] ∧ P.length ≤ limit + 1 := by
  rw [mem_explore]
  constructor
  · rintro ⟨e, l, rfl, he, hsource, hnew, hl⟩
    obtain ⟨hpath, hlength⟩ := mem_paths.mp hl
    exact ⟨isPath_cons.mpr ⟨he, hsource, hnew, hpath⟩, List.cons_ne_nil e l,
      Nat.succ_le_succ hlength⟩
  · rintro ⟨hpath, hne, hlength⟩
    obtain ⟨e, l, rfl⟩ := List.exists_cons_of_ne_nil hne
    obtain ⟨he, hsource, hnew, hrest⟩ := isPath_cons.mp hpath
    exact ⟨e, l, rfl, he, hsource, hnew,
      mem_paths.mpr ⟨hrest, Nat.le_of_succ_le_succ hlength⟩⟩

/-- A summand that occurs wherever `p` holds. -/
theorem sum_map_ite {B : Type v} (p : B → Prop) [DecidablePred p] (c : Nat) (l : List B) :
    (l.map fun b => if p b then c else 0).sum = l.countP p * c := by
  induction l with
  | nil => rw [List.map_nil, List.sum_nil, List.countP_nil, Nat.zero_mul]
  | cons b l ih =>
      rw [List.map_cons, List.sum_cons, ih, List.countP_cons, Nat.add_mul, Nat.add_comm]
      congr 1
      by_cases h : p b
      · rw [if_pos h, if_pos (decide_eq_true h), Nat.one_mul]
      · rw [if_neg h, if_neg (fun htrue => h (of_decide_eq_true htrue)), Nat.zero_mul]

/-- The walks over an edge, counted by the nodes they visit. -/
theorem count_explore {next : V → List (List A)} {e : A} {l : List A} (hsource : source e = u)
    (hnew : target e ∉ u :: visited) :
    ((explore source target E next u visited).map (List.map target)).count
        ((e :: l).map target) =
      multiplicity source target E e *
        ((next (target e)).map (List.map target)).count (l.map target) := by
  have hterm : ∀ g ∈ E.filter fun g => source g = u,
      (List.count (target e :: l.map target) ∘ fun g =>
        (if target g ∈ u :: visited then [] else (next (target g)).map fun l => g :: l).map
          (List.map target)) g =
        if target g = target e then ((next (target e)).map (List.map target)).count (l.map target)
        else 0 := by
    intro g _
    rw [Function.comp_apply]
    by_cases heq : target g = target e
    · rw [if_pos heq, heq, if_neg hnew, List.map_map]
      have hcons : (List.map target ∘ fun l => g :: l) =
          (fun k => target e :: k) ∘ List.map target := by
        funext k
        rw [Function.comp_apply, List.map_cons, heq]
        rfl
      rw [hcons, ← List.map_map]
      exact List.count_map_of_injective _ _ List.cons_injective _
    · rw [if_neg heq, List.count_eq_zero]
      intro hmem
      obtain ⟨k, hk, heq'⟩ := List.mem_map.mp hmem
      split at hk
      · cases hk
      · obtain ⟨k', -, rfl⟩ := List.mem_map.mp hk
        exact heq (List.cons.inj heq').1
  rw [explore, List.map_flatMap, List.count_flatMap, List.map_cons, List.map_congr_left hterm,
    sum_map_ite, List.countP_filter, multiplicity]
  congr 1
  refine List.countP_congr fun g _ => ?_
  simp only [Bool.and_eq_true, decide_eq_true_eq, hsource]
  exact and_comm

/-- **The walks found, counted by the nodes they visit**: one for each choice of the edges. -/
theorem count_paths (h : P ∈ paths source target E goal limit u visited) :
    ((paths source target E goal limit u visited).map (List.map target)).count (P.map target) =
      (P.map (multiplicity source target E)).prod := by
  induction limit generalizing u visited P with
  | zero =>
      unfold paths at h ⊢
      split at h
      · rename_i heq
        obtain rfl := List.mem_singleton.mp h
        rw [if_pos heq]
        rfl
      · cases h
  | succ limit ih =>
      unfold paths at h ⊢
      split at h
      · rename_i heq
        obtain rfl := List.mem_singleton.mp h
        rw [if_pos heq]
        rfl
      · rename_i hne
        obtain ⟨e, l, rfl, -, hsource, hnew, hl⟩ := mem_explore.mp h
        rw [if_neg hne, count_explore hsource hnew, ih hl, List.map_cons, List.prod_cons]

/-- The walks over a first edge, counted. -/
theorem count_explore_paths
    (h : P ∈ explore source target E (fun v => paths source target E goal limit v (u :: visited)) u
      visited) :
    ((explore source target E (fun v => paths source target E goal limit v (u :: visited)) u
        visited).map (List.map target)).count (P.map target) =
      (P.map (multiplicity source target E)).prod := by
  obtain ⟨e, l, rfl, -, hsource, hnew, hl⟩ := mem_explore.mp h
  rw [count_explore hsource hnew, count_paths hl, List.map_cons, List.prod_cons]

/-- A product of natural numbers is one where all of them are. -/
theorem prod_eq_one_iff {B : Type v} (f : B → Nat) (l : List B) :
    (l.map f).prod = 1 ↔ ∀ b ∈ l, f b = 1 := by
  induction l with
  | nil => exact iff_of_true rfl fun b hb => absurd hb List.not_mem_nil
  | cons b l ih => rw [List.map_cons, List.prod_cons, mul_eq_one, ih, List.forall_mem_cons]

/-- **No two walks found visit the same nodes** when each edge of them is the only one between its
ends, and only then. -/
theorem nodup_nodes_iff :
    ((explore source target E (fun v => paths source target E goal limit v (u :: visited)) u
        visited).map (List.map target)).Nodup ↔
      ∀ P, IsPath source target E goal u visited P → P ≠ [] → P.length ≤ limit + 1 →
        ∀ e ∈ P, multiplicity source target E e = 1 := by
  rw [List.nodup_iff_count_eq_one, List.forall_mem_map]
  constructor
  · intro h P hpath hne hlength
    have hmem := mem_explore_paths.mpr ⟨hpath, hne, hlength⟩
    exact (prod_eq_one_iff _ P).mp ((count_explore_paths hmem).symm.trans (h P hmem))
  · intro h P hmem
    obtain ⟨hpath, hne, hlength⟩ := mem_explore_paths.mp hmem
    rw [count_explore_paths hmem]
    exact (prod_eq_one_iff _ P).mpr (h P hpath hne hlength)

end Paths

end StopTrading.Walks
