import Mathlib.Data.Fintype.Card
import StopTrading.Library.TopologicalOrder

/-!
# Recursive depth-first searches

A graph is a function `next` from a node to the list of its successors.  Both searches call
themselves for every successor and hand on the nodes they have marked; they take the depth to
which they may call themselves.

* `hasPath` answers whether a node with a property is reached.  A node that is met again
  answers no, and this is right although its own search may still be running:
  what a search has marked is closed once it has answered no (`Explores`, `hasPath_eq`).
* `visit` appends a node to a list behind its successors, and answers no where it meets a node
  whose visit is still running.  `visitAll` visits every node: it answers yes if there is no
  cycle, and then the list read backwards is a topological order (`visitAll_eq`).

`askAll` is the loop both have in common, and `askAll_rule` its rule.

### What is load-bearing

Both searches are recursive through the list of successors, so their rule is stated for the loop
first (`askAll_rule`): if asking one node keeps a promise about the state or gives a reason to
stop, so does asking several.  The two searches then differ in what they promise.

For `hasPath` the promise is `Explores`.  It does not say that the marked set is closed: while a
search is running, the nodes on the way down are marked and their successors are not yet.  It
says that what *this call* has marked is closed relative to what was marked before, and that is
enough, because a call that answers no has returned.

For `visit` the promise is `Keeps`, which gives back the temporary marks as they were.  A node
that is met with a temporary mark lies on the way down, so the way down is a cycle (`GraphSearch`
has the path); this is the only reason to answer no.

The depth is fuel.  Every nested call has one more node marked, so as many levels as there are
unmarked nodes are enough, and the results are about the fuel that the caller gives.
-/

namespace StopTrading.DepthFirst

open GraphSearch TopologicalOrder Relation

universe u v

variable {V : Type u} {S : Type v}

/-! ## One node after the other -/

/-- Ask one node after the other, up to the first that answers `stop`. -/
def askAll (stop : Bool) (ask : V → S → Option (Bool × S)) : List V → S → Option (Bool × S)
  | [], s => some (!stop, s)
  | v :: vs, s =>
      match ask v s with
      | none => none
      | some (answer, s) => if answer = stop then some (stop, s) else askAll stop ask vs s

/-- **There is an answer**: if it is `stop` there is a reason, and otherwise the state is as
promised. -/
def Asked (stop : Bool) (result : Option (Bool × S)) (Reason : Prop) (Promise : S → Prop) : Prop :=
  ∃ answer s, result = some (answer, s) ∧ (answer = stop → Reason) ∧
    (answer ≠ stop → Promise s)

section Asked

variable {stop : Bool} {Reason : Prop} {Promise : S → Prop} {s : S}

/-- An answer with a reason. -/
theorem Asked.stopped (h : Reason) : Asked stop (some (stop, s)) Reason Promise :=
  ⟨stop, s, rfl, fun _ => h, fun hne => absurd rfl hne⟩

/-- The other answer, with its promise. -/
theorem Asked.kept (h : Promise s) : Asked stop (some (!stop, s)) Reason Promise :=
  ⟨!stop, s, rfl, fun heq => absurd heq (by simp), fun _ => h⟩

/-- **The rule of the loop**: what one node keeps and achieves, all of them keep and achieve. -/
theorem askAll_rule {ask : V → S → Option (Bool × S)} (Keep : S → S → Prop) (Done : V → S → Prop)
    (refl : ∀ s, Keep s s) (trans : ∀ {s s' s''}, Keep s s' → Keep s' s'' → Keep s s'')
    (stable : ∀ {v s s'}, Done v s → Keep s s' → Done v s') {s₀ : S} {vs : List V}
    (h : ∀ v ∈ vs, ∀ s, Keep s₀ s → Asked stop (ask v s) Reason fun s' => Keep s s' ∧ Done v s')
    (hkeep : Keep s₀ s) :
    Asked stop (askAll stop ask vs s) Reason fun s' => Keep s s' ∧ ∀ v ∈ vs, Done v s' := by
  induction vs generalizing s with
  | nil => exact .kept ⟨refl s, fun v hv => absurd hv List.not_mem_nil⟩
  | cons v vs ih =>
      obtain ⟨answer, s', hask, hstop, hgo⟩ := h v List.mem_cons_self s hkeep
      simp only [askAll, hask]
      split
      · next heq => exact .stopped (hstop heq)
      · next hne =>
        obtain ⟨hkept, hdone⟩ := hgo hne
        obtain ⟨answer', s'', hrest, hstop', hgo'⟩ :=
          ih (fun w hw => h w (List.mem_cons_of_mem v hw)) (trans hkeep hkept)
        refine ⟨answer', s'', hrest, hstop', fun hne' => ?_⟩
        obtain ⟨hkept', hdone'⟩ := hgo' hne'
        refine ⟨trans hkept hkept', fun w hw => ?_⟩
        rcases List.mem_cons.mp hw with rfl | hw
        · exact stable hdone hkept'
        · exact hdone' w hw

end Asked

variable {next : V → List V}

/-- A node less that is not marked. -/
theorem card_compl_insert [DecidableEq V] [Fintype V] {marked : Finset V} {v : V}
    (hv : v ∉ marked) : (insert v marked)ᶜ.card + 1 = markedᶜ.card := by
  rw [Finset.compl_insert, Finset.card_erase_add_one (Finset.mem_compl.mpr hv)]

/-! ## Is there a path? -/

section Path

variable {goal : V → Prop} {visited visited' : Finset V} {v : V}

/-- Some node with a property is reached. -/
def ReachesGoal (next : V → List V) (goal : V → Prop) (v : V) : Prop :=
  ∃ w, goal w ∧ Reaches next v w

/-- **What a search without success marks**: it keeps the marks, does not mark the goal, and
marks the successors of what it has marked. -/
structure Explores (next : V → List V) (goal : V → Prop) (visited visited' : Finset V) :
    Prop where
  /-- marks are not taken back -/
  subset : visited ⊆ visited'
  /-- the property is not among the marks -/
  goal : (∀ v ∈ visited, ¬ goal v) → ∀ v ∈ visited', ¬ goal v
  /-- the successors of new marks are marked -/
  closed : ∀ v ∈ visited', v ∉ visited → ∀ w ∈ next v, w ∈ visited'

/-- Nothing was marked. -/
theorem Explores.refl (visited : Finset V) : Explores next goal visited visited :=
  ⟨Finset.Subset.refl visited, id, fun _ hv hnot => absurd hv hnot⟩

/-- One search after another. -/
theorem Explores.trans {visited'' : Finset V} (h : Explores next goal visited visited')
    (h' : Explores next goal visited' visited'') : Explores next goal visited visited'' := by
  refine ⟨h.subset.trans h'.subset, fun hgoal => h'.goal (h.goal hgoal), fun v hv hnot w hw => ?_⟩
  by_cases hv' : v ∈ visited'
  · exact h'.subset (h.closed v hv' hnot w hw)
  · exact h'.closed v hv hv' w hw

/-- A set that is closed under successors reaches nothing else. -/
theorem Explores.not_reachesGoal (h : Explores next goal ∅ visited') (hv : v ∈ visited') :
    ¬ ReachesGoal next goal v := by
  rintro ⟨w, hw, hreach⟩
  have hmem : w ∈ visited' := by
    clear hw
    induction hreach with
    | refl => exact hv
    | tail _ hedge ih => exact h.closed _ ih (Finset.notMem_empty _) _ hedge
  exact h.goal (fun x hx => absurd hx (Finset.notMem_empty x)) w hmem hw

variable [DecidableEq V]

/-- The search of a node whose successors have all been searched. -/
theorem Explores.of_insert (h : Explores next goal (insert v visited) visited') (hgoal : ¬ goal v)
    (hnext : ∀ w ∈ next v, w ∈ visited') : Explores next goal visited visited' := by
  refine ⟨(Finset.subset_insert v visited).trans h.subset, fun hnot => h.goal fun w hw => ?_,
    fun w hw hnot x hx => ?_⟩
  · rcases Finset.mem_insert.mp hw with rfl | hw
    · exact hgoal
    · exact hnot w hw
  · by_cases hwv : w = v
    · subst hwv
      exact hnext x hx
    · exact h.closed w hw (by simp [hwv, hnot]) x hx

variable [DecidablePred goal]

/-- **The search for a node with a property.** -/
def hasPath (next : V → List V) (goal : V → Prop) [DecidablePred goal] :
    Nat → V → Finset V → Option (Bool × Finset V)
  | 0, _, _ => none
  | depth + 1, v, visited =>
      if goal v then some (true, visited)
      else if v ∈ visited then some (false, visited)
      else askAll true (hasPath next goal depth) (next v) (insert v visited)

variable [Fintype V]

/-- **One search**, by induction on the depth that is left; every call marks a node. -/
theorem hasPath_asked {depth : Nat} (hdepth : visitedᶜ.card < depth) :
    Asked true (hasPath next goal depth v visited) (ReachesGoal next goal v)
      fun visited' => Explores next goal visited visited' ∧ v ∈ visited' := by
  induction depth generalizing v visited with
  | zero => exact absurd hdepth (Nat.not_lt_zero _)
  | succ depth ih =>
      rw [hasPath]
      split_ifs with hgoal hvisited
      · exact .stopped ⟨v, hgoal, .refl⟩
      · exact .kept ⟨.refl visited, hvisited⟩
      · have hsuccessor : ∀ w ∈ next v, ∀ visited',
            Explores next goal (insert v visited) visited' →
              Asked true (hasPath next goal depth w visited') (ReachesGoal next goal v)
                fun visited'' => Explores next goal visited' visited'' ∧ w ∈ visited'' := by
          intro w hw visited' hkeep
          have hcard := card_compl_insert hvisited
          have hle := Finset.card_le_card (Finset.compl_subset_compl.mpr hkeep.subset)
          have hless : visited'ᶜ.card < depth := by omega
          obtain ⟨answer, visited'', hask, hstop, hgo⟩ := ih (v := w) hless
          refine ⟨answer, visited'', hask, fun hyes => ?_, hgo⟩
          obtain ⟨x, hx, hreach⟩ := hstop hyes
          exact ⟨x, hx, .head hw hreach⟩
        obtain ⟨answer, visited', hask, hstop, hgo⟩ :=
          askAll_rule (Explores next goal) (fun w visited => w ∈ visited) Explores.refl
            Explores.trans (fun hw hkeep => hkeep.subset hw) hsuccessor (.refl _)
        refine ⟨answer, visited', hask, hstop, fun hne => ?_⟩
        obtain ⟨hkeep, hnext⟩ := hgo hne
        exact ⟨hkeep.of_insert hgoal hnext, hkeep.subset (Finset.mem_insert_self v visited)⟩

/-- **The search answers whether the goal is reached.** -/
theorem hasPath_eq {depth : Nat} (hdepth : Fintype.card V < depth) (v : V) :
    ∃ answer visited', hasPath next goal depth v ∅ = some (answer, visited') ∧
      (answer = true ↔ ReachesGoal next goal v) := by
  have hempty : (∅ : Finset V)ᶜ.card < depth := by rwa [Finset.compl_empty, Finset.card_univ]
  obtain ⟨answer, visited', hask, hstop, hgo⟩ :=
    @hasPath_asked _ next goal ∅ v _ _ _ depth hempty
  refine ⟨answer, visited', hask, hstop, fun hreach => ?_⟩
  by_contra hne
  obtain ⟨hkeep, hv⟩ := hgo hne
  exact hkeep.not_reachesGoal hv hreach

end Path

/-! ## Lists in which successors come first -/

/-- **Every node comes behind its successors**, and once. -/
inductive PostOrder (next : V → List V) : List V → Prop
  | nil : PostOrder next []
  | append {result : List V} {v : V} : PostOrder next result → v ∉ result →
      (∀ w ∈ next v, w ∈ result) → PostOrder next (result ++ [v])

namespace PostOrder

variable {result : List V}

/-- No node comes twice. -/
theorem nodup (h : PostOrder next result) : result.Nodup := by
  induction h with
  | nil => exact List.nodup_nil
  | append _ hnew _ ih =>
      exact ih.append (List.nodup_singleton _) (List.disjoint_singleton.mpr hnew)

/-- Successors are in the list. -/
theorem mem_of_edge (h : PostOrder next result) {v w : V} (hv : v ∈ result) (hw : w ∈ next v) :
    w ∈ result := by
  induction h with
  | nil => exact absurd hv List.not_mem_nil
  | @append result x _ _ hnext ih =>
      refine List.mem_append_left _ ?_
      rcases List.mem_append.mp hv with hv | hv
      · exact ih hv
      · obtain rfl := List.mem_singleton.mp hv
        exact hnext w hw

/-- Read backwards, edges lead forward. -/
theorem idxOf_lt [DecidableEq V] (h : PostOrder next result) {v w : V} (hv : v ∈ result)
    (hw : w ∈ next v) : result.reverse.idxOf v < result.reverse.idxOf w := by
  induction h with
  | nil => exact absurd hv List.not_mem_nil
  | @append result x hresult hnew hnext ih =>
      have hmem : w ∈ result := by
        rcases List.mem_append.mp hv with hv | hv
        · exact hresult.mem_of_edge hv hw
        · obtain rfl := List.mem_singleton.mp hv
          exact hnext w hw
      have hwx : x ≠ w := fun heq => hnew (heq ▸ hmem)
      rw [List.reverse_append, List.reverse_singleton, List.singleton_append,
        List.idxOf_cons_ne _ hwx]
      rcases List.mem_append.mp hv with hv | hv
      · have hvx : x ≠ v := fun heq => hnew (heq ▸ hv)
        rw [List.idxOf_cons_ne _ hvx]
        exact Nat.succ_lt_succ (ih hv)
      · rw [List.mem_singleton.mp hv, List.idxOf_cons_self]
        exact Nat.succ_pos _

/-- **There is a cycle if not all nodes can be put so.** -/
theorem acyclic [DecidableEq V] (h : PostOrder next result) (hall : ∀ v, v ∈ result) :
    Acyclic fun v w => w ∈ next v := by
  have hpath : ∀ v w, TransGen (fun v w => w ∈ next v) v w →
      result.reverse.idxOf v < result.reverse.idxOf w := by
    intro v w hpath
    induction hpath with
    | single hedge => exact h.idxOf_lt (hall v) hedge
    | tail _ hedge ih => exact ih.trans (h.idxOf_lt (hall _) hedge)
  exact fun v hcycle => absurd (hpath v v hcycle) (lt_irrefl _)

/-- **Read backwards it is a topological order.** -/
theorem isTopologicalOrder [DecidableEq V] (h : PostOrder next result) {nodes : List V}
    (hnodes : nodes.Nodup) (hall : ∀ v, v ∈ result) (hall' : ∀ v, v ∈ nodes) :
    IsTopologicalOrder (fun v w => w ∈ next v) nodes result.reverse where
  perm := (List.reverse_perm result).trans
    ((List.perm_ext_iff_of_nodup h.nodup hnodes).mpr fun v => iff_of_true (hall v) (hall' v))
  forward v _ hedge := h.idxOf_lt (hall v) hedge

end PostOrder

/-! ## Visiting -/

section Visit

/-- The marks of a sort, and the list of the nodes whose visits have ended. -/
structure Marks (V : Type u) where
  /-- the nodes whose visits have ended -/
  visited : Finset V
  /-- the nodes whose visits are running -/
  tempMark : Finset V
  /-- the visited nodes in the order in which their visits ended -/
  result : List V

/-- Nothing is marked. -/
def Marks.empty : Marks V := ⟨∅, ∅, []⟩

/-- **The invariant of a sort.** -/
structure Marks.Inv (next : V → List V) (m : Marks V) : Prop where
  /-- every node in the list is behind its successors -/
  postOrder : PostOrder next m.result
  /-- the marks are those of the list -/
  visited : ∀ v, v ∈ m.visited ↔ v ∈ m.result
  /-- a visit has not ended while it runs -/
  running : ∀ v ∈ m.tempMark, v ∉ m.visited

/-- What a visit without a cycle keeps. -/
structure Marks.Keeps (next : V → List V) (m m' : Marks V) : Prop where
  /-- the visits that were running still are -/
  tempMark : m'.tempMark = m.tempMark
  /-- marks are not taken back -/
  visited : m.visited ⊆ m'.visited
  /-- the invariant -/
  inv : m.Inv next → m'.Inv next

variable {m m' : Marks V} {v : V}

/-- At first nothing is marked. -/
theorem Marks.inv_empty : (Marks.empty : Marks V).Inv next where
  postOrder := .nil
  visited _ := iff_of_false (Finset.notMem_empty _) List.not_mem_nil
  running _ hv := absurd hv (Finset.notMem_empty _)

/-- Nothing was visited. -/
theorem Marks.Keeps.refl (m : Marks V) : Marks.Keeps next m m :=
  ⟨rfl, Finset.Subset.refl _, id⟩

/-- One visit after another. -/
theorem Marks.Keeps.trans {m'' : Marks V} (h : Marks.Keeps next m m')
    (h' : Marks.Keeps next m' m'') : Marks.Keeps next m m'' :=
  ⟨h'.tempMark.trans h.tempMark, h.visited.trans h'.visited, fun inv => h'.inv (h.inv inv)⟩

variable [DecidableEq V]

/-- **One visit.** -/
def visit (next : V → List V) : Nat → V → Marks V → Option (Bool × Marks V)
  | 0, _, _ => none
  | depth + 1, v, m =>
      if v ∈ m.tempMark then some (false, m)
      else if v ∈ m.visited then some (true, m)
      else
        match askAll false (visit next depth) (next v)
            { m with tempMark := insert v m.tempMark } with
        | none => none
        | some (false, m) => some (false, m)
        | some (true, m) =>
            some (true, ⟨insert v m.visited, m.tempMark.erase v, m.result ++ [v]⟩)

/-- **Visit all nodes** that have not been visited. -/
def visitAll (next : V → List V) (depth : Nat) : List V → Marks V → Option (Bool × Marks V) :=
  askAll false fun v m => if v ∈ m.visited then some (true, m) else visit next depth v m

/-- **The end of a visit**: all successors have been visited. -/
theorem Marks.Keeps.close
    (h : Marks.Keeps next { m with tempMark := insert v m.tempMark } m') (htemp : v ∉ m.tempMark)
    (hvisited : v ∉ m.visited) (hnext : ∀ w ∈ next v, w ∈ m'.visited) :
    Marks.Keeps next m ⟨insert v m'.visited, m'.tempMark.erase v, m'.result ++ [v]⟩ := by
  have herase : m'.tempMark.erase v = m.tempMark := by
    rw [h.tempMark, Finset.erase_insert htemp]
  refine ⟨herase, h.visited.trans (Finset.subset_insert v _), fun inv => ?_⟩
  have hrunning : ∀ w ∈ insert v m.tempMark, w ∉ m.visited := fun w hw => by
    rcases Finset.mem_insert.mp hw with rfl | hw
    · exact hvisited
    · exact inv.running w hw
  have inv' := h.inv ⟨inv.postOrder, inv.visited, hrunning⟩
  -- The node's own visit was running until now.
  have hnew : v ∉ m'.visited :=
    inv'.running v (by rw [h.tempMark]; exact Finset.mem_insert_self ..)
  refine ⟨.append inv'.postOrder ?_ fun w hw => (inv'.visited w).mp (hnext w hw), fun w => ?_,
    fun w hw => ?_⟩
  · rwa [← inv'.visited]
  · rw [Finset.mem_insert, List.mem_append, List.mem_singleton, inv'.visited]
    exact or_comm
  · obtain ⟨hne, hmem⟩ := Finset.mem_erase.mp hw
    rw [Finset.mem_insert, not_or]
    exact ⟨hne, inv'.running w hmem⟩

variable [Fintype V]

/-- **One visit**, by induction on the depth that is left; every visit that calls another is
marked as running. -/
theorem visit_asked {depth : Nat} (hdepth : (m.visited ∪ m.tempMark)ᶜ.card < depth)
    (hpath : ∀ t ∈ m.tempMark, TransGen (fun v w => w ∈ next v) t v) :
    Asked false (visit next depth v m) (¬ Acyclic fun v w => w ∈ next v)
      fun m' => Marks.Keeps next m m' ∧ v ∈ m'.visited := by
  induction depth generalizing v m with
  | zero => exact absurd hdepth (Nat.not_lt_zero _)
  | succ depth ih =>
      rw [visit]
      split_ifs with htemp hvisited
      · exact .stopped fun hacyclic => hacyclic v (hpath v htemp)
      · exact .kept ⟨.refl m, hvisited⟩
      · have hsuccessor : ∀ w ∈ next v, ∀ m',
            Marks.Keeps next { m with tempMark := insert v m.tempMark } m' →
              Asked false (visit next depth w m') (¬ Acyclic fun v w => w ∈ next v)
                fun m'' => Marks.Keeps next m' m'' ∧ w ∈ m''.visited := by
          intro w hw m' hkeep
          have hnew : v ∉ m.visited ∪ m.tempMark := by
            rw [Finset.mem_union, not_or]
            exact ⟨hvisited, htemp⟩
          have hcard := card_compl_insert hnew
          have hsubset : insert v (m.visited ∪ m.tempMark) ⊆ m'.visited ∪ m'.tempMark := by
            rw [← Finset.union_insert, hkeep.tempMark]
            exact Finset.union_subset_union_left hkeep.visited
          have hle := Finset.card_le_card (Finset.compl_subset_compl.mpr hsubset)
          refine ih (by omega) fun t ht => ?_
          -- The nodes whose visits are running lead to the successor.
          rw [hkeep.tempMark] at ht
          rcases Finset.mem_insert.mp ht with rfl | ht
          · exact .single hw
          · exact (hpath t ht).tail hw
        obtain ⟨answer, m', hask, hstop, hgo⟩ :=
          askAll_rule (Marks.Keeps next) (fun w m => w ∈ m.visited) Marks.Keeps.refl
            Marks.Keeps.trans (fun hw hkeep => hkeep.visited hw) hsuccessor (.refl _)
        rw [hask]
        cases answer with
        | false => exact .stopped (hstop rfl)
        | true =>
            obtain ⟨hkeep, hnext⟩ := hgo (by decide)
            exact .kept ⟨hkeep.close htemp hvisited hnext, Finset.mem_insert_self ..⟩

/-- **All visits**: there is an answer; it is yes exactly if there is no cycle, and then the
list read backwards is a topological order. -/
theorem visitAll_eq {depth : Nat} (hdepth : Fintype.card V < depth) {nodes : List V}
    (hnodes : nodes.Nodup) (hall : ∀ v, v ∈ nodes) :
    ∃ answer m, visitAll next depth nodes .empty = some (answer, m) ∧
      (answer = true ↔ Acyclic fun v w => w ∈ next v) ∧
      (answer = true → IsTopologicalOrder (fun v w => w ∈ next v) nodes m.result.reverse) := by
  have hnode : ∀ w ∈ nodes, ∀ m, Marks.Keeps next .empty m →
      Asked false (if w ∈ m.visited then some (true, m) else visit next depth w m)
        (¬ Acyclic fun v w => w ∈ next v) fun m' => Marks.Keeps next m m' ∧ w ∈ m'.visited := by
    intro w _ m hkeep
    split
    · next hvisited => exact .kept ⟨.refl m, hvisited⟩
    · refine visit_asked ?_ fun t ht => ?_
      · exact (Finset.card_le_univ _).trans_lt hdepth
      · rw [hkeep.tempMark] at ht
        exact absurd ht (Finset.notMem_empty t)
  obtain ⟨answer, m, hask, hstop, hgo⟩ :=
    askAll_rule (Marks.Keeps next) (fun w m => w ∈ m.visited) Marks.Keeps.refl
      Marks.Keeps.trans (fun hw hkeep => hkeep.visited hw) hnode (.refl _)
  have hsorted : answer = true → (Acyclic fun v w => w ∈ next v) ∧
      IsTopologicalOrder (fun v w => w ∈ next v) nodes m.result.reverse := by
    rintro rfl
    obtain ⟨hkeep, hvisited⟩ := hgo (by decide)
    have inv := hkeep.inv Marks.inv_empty
    have hresult : ∀ v, v ∈ m.result := fun v => (inv.visited v).mp (hvisited v (hall v))
    exact ⟨inv.postOrder.acyclic hresult, inv.postOrder.isTopologicalOrder hnodes hresult hall⟩
  refine ⟨answer, m, hask, ⟨fun hyes => (hsorted hyes).1, fun hacyclic => ?_⟩,
    fun hyes => (hsorted hyes).2⟩
  by_contra hno
  exact hstop (by simpa using hno) hacyclic

end Visit

end StopTrading.DepthFirst
