import StopTrading.DataStructures.SkipRefinement

/-!
# The walks of the skip list

An insertion links its node level by level.  Behind the levels that the list has, it links it
in front of the head, and reads the head again on every level: on the first of them that is the
old head, on the next it is the node itself.  So a node that is two levels higher than the list
leads to itself, and the walks on that level do not end.

Otherwise all walks end (`Sound`): a node is put behind another or in front of the head when
nothing leads to it, and a removal passes over nodes.

### What is load-bearing

Termination of a walk is a property of the pointers of one level, `Ends`, and there are two
writes that have to keep it: a node is put behind another one, or in front of the head.  Both are
sound because nothing leads to the node yet (`Fresh`), on that level.  The second is sound only
once.  The head is read again for every level that the list does not have, and by then the head
is the node itself; from the second such level on, the node is put in front of itself.

Hence the condition: the level of a node that is taken is at most one above the height
(`LevelFits`).  It is necessary because the height is raised to that level, so that the level on
which the node leads to itself is one that searches use.

The counter of allocated nodes wraps at `2 ^ 64`.  An arena that is full stays full only until
then, and `NoWrap` keeps the runs that are considered from getting there.
-/

namespace StopTrading.DataStructures

open Transition MachineInt PointerWalk

namespace LockFreeSkipList

variable {m m' : LockFreeSkipList}

/-- The pointers of a level. -/
def forwardOn (m : LockFreeSkipList) (i : Nat) (n : Fin arenaCapacity) : Ptr :=
  (m.nodes n).forward i

/-- A pointer is written on one level. -/
theorem forwardOn_setForward (m : LockFreeSkipList) (n : Fin arenaCapacity) (i j : Nat) (p : Ptr) :
    (m.setForward n i p).forwardOn j =
      if j = i then Function.update (m.forwardOn i) n p else m.forwardOn j := by
  funext n'
  rw [forwardOn, setForward_forward]
  by_cases hj : j = i
  · subst hj
    rw [if_pos rfl, Function.update_apply]
    simp only [and_true]
    rfl
  · rw [if_neg hj, if_neg fun h => hj h.2]
    rfl

/-! ## Searches end -/

/-- **Every operation returns.** -/
structure Returns (m : LockFreeSkipList) : Prop where
  /-- `insert` returns, for every level -/
  insert : ∀ key value level, (m.insert key value level).isSome
  /-- and so do `get` -/
  get : ∀ key, (m.get key).isSome
  /-- `remove` -/
  remove : ∀ key, (m.remove key).isSome
  /-- `floor` -/
  floor : ∀ key, (m.floor key).isSome
  /-- `ceiling` -/
  ceiling : ∀ key, (m.ceiling key).isSome
  /-- and `range` -/
  range : ∀ start stop, (m.range start stop).isSome

/-- All walks of the levels below the height end. -/
def WalksEnd (m : LockFreeSkipList) : Prop := ∀ i < m.height, Ends (m.forwardOn i)

/-- A search goes on at most as far as the pointers lead, -/
theorem ends_next {i : Nat} (h : Ends (m.forwardOn i)) (onward : Int → Bool) :
    Ends (m.next i onward) := by
  refine h.mono fun n => ?_
  rw [next, forwardOn]
  cases (m.nodes n).forward i with
  | none => exact .inl rfl
  | some n' =>
      cases honward : onward (m.nodes n').key with
      | false => exact .inl (Option.filter_some_neg (by simpa using honward))
      | true => exact .inr (Option.filter_some_pos (by simpa using honward))

/-- so that its walk ends, -/
theorem exists_walk {i : Nat} (h : Ends (m.forwardOn i)) (onward : Int → Bool)
    (n : Fin arenaCapacity) : ∃ n', m.walk i onward n = some n' := by
  have hfollow := (ends_next h onward).exists_follow n
  rwa [Fintype.card_fin] at hfollow

/-- on every level, -/
theorem exists_descend {h : Nat} (hends : ∀ i < h, Ends (m.forwardOn i)) (onward : Int → Bool)
    (n : Fin arenaCapacity) : ∃ r, m.descend onward h n = some r := by
  induction h generalizing n with
  | zero => exact ⟨_, rfl⟩
  | succ h ih =>
      obtain ⟨n', hwalk⟩ := exists_walk (hends h (Nat.lt_succ_self h)) onward n
      obtain ⟨r, hr⟩ := ih (fun i hi => hends i (Nat.lt_succ_of_lt hi)) n'
      exact ⟨_, by rw [descend, hwalk, Option.bind_some, hr, Option.map_some]⟩

/-- and the search returns, -/
theorem exists_search (h : m.WalksEnd) (onward : Int → Bool) :
    ∃ r, m.search onward = some r := by
  rw [search]
  cases m.head with
  | none => exact ⟨_, rfl⟩
  | some head =>
      obtain ⟨r, hr⟩ := exists_descend h onward head
      exact ⟨_, by simp only [hr, Option.map_some]; rfl⟩

/-- as does that of `insert`. -/
theorem exists_insertDescend {h : Nat} (hends : ∀ i < h, Ends (m.forwardOn i)) (key : Int)
    (n : Fin arenaCapacity) : ∃ r, m.insertDescend key h n = some r := by
  induction h generalizing n with
  | zero => exact ⟨_, rfl⟩
  | succ h ih =>
      obtain ⟨n', hwalk⟩ := exists_walk (hends h (Nat.lt_succ_self h)) (fun k => k < key) n
      obtain ⟨r, hr⟩ := ih (fun i hi => hends i (Nat.lt_succ_of_lt hi)) n'
      rw [insertDescend, hwalk, Option.bind_some, hr]
      cases m.next h (fun k => k = key) n' with
      | none => exact ⟨_, rfl⟩
      | some found => exact ⟨_, rfl⟩

/-- **Where all walks end, every operation returns**: a search makes one walk on each level
below the height, and `range` another on the lowest. -/
theorem WalksEnd.returns (h : m.WalksEnd) (hlowest : Ends (m.forwardOn 0)) : m.Returns where
  insert key value level := by
    rw [LockFreeSkipList.insert]
    cases m.head with
    | none => rfl
    | some head =>
        obtain ⟨r, hr⟩ := exists_insertDescend h key head
        simp only [hr, Option.map_some, Option.isSome_some]
  get key := by
    obtain ⟨r, hr⟩ := exists_search h fun k => k < key
    rw [LockFreeSkipList.get, hr]
    rfl
  remove key := by
    obtain ⟨r, hr⟩ := exists_search h fun k => k < key
    rw [LockFreeSkipList.remove, hr]
    rfl
  floor key := by
    obtain ⟨r, hr⟩ := exists_search h fun k => k ≤ key
    rw [LockFreeSkipList.floor, hr]
    rfl
  ceiling key := by
    obtain ⟨r, hr⟩ := exists_search h fun k => k < key
    rw [LockFreeSkipList.ceiling, hr]
    rfl
  range start stop := by
    obtain ⟨r, hr⟩ := exists_search h fun k => k < start
    rw [LockFreeSkipList.range, hr, Option.bind_some]
    cases r.1.bind (m.next 0 fun k => k ≤ stop) with
    | none => rfl
    | some first =>
        obtain ⟨l, hl⟩ := (ends_next hlowest fun k => k ≤ stop).exists_trail first
        rw [Fintype.card_fin] at hl
        simp only [hl, Option.map_some, Option.isSome_some]

/-! ## What keeps all walks ending -/

/-- Nothing leads to a node. -/
def Fresh (m : LockFreeSkipList) (n : Fin arenaCapacity) : Prop :=
  m.head ≠ some n ∧ ∀ i n', m.forwardOn i n' ≠ some n

/-- **The invariant**: all walks end, nothing leads to a node that was not allocated yet, and a
list without a head is new. -/
structure Sound (m : LockFreeSkipList) : Prop where
  /-- walks end on every level -/
  ends : ∀ i, Ends (m.forwardOn i)
  /-- nothing leads to a node that is not in use -/
  fresh : ∀ n : Fin arenaCapacity, m.allocated ≤ n → m.Fresh n
  /-- without a head there is nothing -/
  empty : m.head = none → m.height = 0 ∧ m.allocated = 0

/-- Nothing leads anywhere in a new list. -/
theorem sound_new : new.Sound where
  ends _ n := ⟨[n], .stop rfl⟩
  fresh _ _ := ⟨nofun, fun _ _ => nofun⟩
  empty _ := ⟨rfl, rfl⟩

/-- Where all walks end, those below the height do. -/
theorem Sound.walksEnd (h : m.Sound) : m.WalksEnd := fun i _ => h.ends i

/-- A list with the same pointers. -/
theorem Sound.congr (h : m.Sound) (hforward : ∀ i, m'.forwardOn i = m.forwardOn i)
    (hhead : m'.head = m.head) (hallocated : m.allocated ≤ m'.allocated)
    (hempty : m'.head = none → m'.height = 0 ∧ m'.allocated = 0) : m'.Sound where
  ends i := hforward i ▸ h.ends i
  fresh n hn := by
    obtain ⟨hhead', hled⟩ := h.fresh n (hallocated.trans hn)
    exact ⟨hhead ▸ hhead', fun i n' => by rw [hforward]; exact hled i n'⟩
  empty := hempty

/-! ### Removing -/

/-- What `unlink` keeps. -/
structure Kept (m m' : LockFreeSkipList) : Prop where
  /-- walks end -/
  ends : ∀ i, Ends (m'.forwardOn i)
  /-- a pointer leads where one has led before -/
  led : ∀ i n p, m'.forwardOn i n = some p → ∃ n', m.forwardOn i n' = some p
  /-- from the same head -/
  head : m'.head = m.head
  /-- on the same levels -/
  height : m'.height = m.height
  /-- over the same nodes -/
  allocated : m'.allocated = m.allocated

/-- Taking a node out of a level leads past it, -/
theorem Kept.unlink {start : LockFreeSkipList} (h : start.Kept m) (update : Nat → Ptr)
    (target : Fin arenaCapacity) (i : Nat) :
    start.Kept (LockFreeSkipList.unlink update target m i) := by
  rw [LockFreeSkipList.unlink]
  cases update i with
  | none => exact h
  | some n =>
      by_cases hnext : (m.nodes n).forward i = some target
      · simp only [if_pos hnext]
        refine ⟨fun j => ?_, fun j n' p hp => ?_, h.head, h.height, h.allocated⟩
        · rw [forwardOn_setForward]
          split
          · exact (h.ends i).bypass hnext
          · exact h.ends j
        · rw [forwardOn_setForward] at hp
          split at hp
          · next hj =>
              subst hj
              rw [Function.update_apply] at hp
              split at hp
              · exact h.led j target p hp
              · exact h.led j n' p hp
          · exact h.led j n' p hp
      · simp only [if_neg hnext]
        exact h

/-- on one level after the other, -/
theorem Kept.foldl_unlink {start : LockFreeSkipList} (h : start.Kept m) (update : Nat → Ptr)
    (target : Fin arenaCapacity) (levels : List Nat) :
    start.Kept (levels.foldl (LockFreeSkipList.unlink update target) m) := by
  induction levels generalizing m with
  | nil => exact h
  | cons i levels ih => exact ih (h.unlink update target i)

/-- and this keeps the list sound. -/
theorem Sound.remove {key : Int} {found : Bool} (h : m.Sound)
    (hremove : m.remove key = some (m', found)) : m'.Sound := by
  obtain ⟨r, hsearch, hr⟩ := Option.map_eq_some_iff.mp hremove
  cases htarget : r.1.bind (m.next 0 fun k => k = key) with
  | none =>
      simp only [htarget] at hr
      cases hr
      exact h
  | some target =>
      simp only [htarget] at hr
      cases hr
      have hstart : m.Kept m := ⟨h.ends, fun i n p hp => ⟨n, hp⟩, rfl, rfl, rfl⟩
      have hkept := hstart.foldl_unlink r.2 target (List.range m.height)
      have hhead : m.head ≠ none := by
        intro hnone
        rw [search, hnone] at hsearch
        cases hsearch
        cases htarget
      refine ⟨hkept.ends, fun n hn => ⟨?_, fun i n' hp => ?_⟩, fun hnone => ?_⟩
      · show LockFreeSkipList.head _ ≠ _
        rw [hkept.head]
        exact (h.fresh n (hkept.allocated ▸ hn)).1
      · obtain ⟨n'', hled⟩ := hkept.led i n' n hp
        exact (h.fresh n (hkept.allocated ▸ hn)).2 i n'' hled
      · exact absurd (hkept.head ▸ hnone) hhead

/-! ### Inserting -/

/-- **The nodes to insert behind**: there is one on every level of the list, and it is the start
of the search or something leads to it. -/
theorem insertDescend_update {key : Int} {h : Nat} {n : Fin arenaCapacity} {update : Nat → Ptr}
    (hdescend : m.insertDescend key h n = some (.inr update)) :
    (∀ i < h, ∃ p, update i = some p ∧ (p = n ∨ ∃ j n', m.forwardOn j n' = some p)) ∧
      ∀ i, h ≤ i → update i = none := by
  induction h generalizing n update with
  | zero =>
      cases hdescend
      exact ⟨fun i hi => absurd hi (Nat.not_lt_zero i), fun _ _ => rfl⟩
  | succ h ih =>
      rw [insertDescend] at hdescend
      obtain ⟨n', hwalk, hrest⟩ := Option.bind_eq_some_iff.mp hdescend
      cases hnext : m.next h (fun k => k = key) n' with
      | some found =>
          simp only [hnext] at hrest
          cases hrest
      | none =>
          simp only [hnext] at hrest
          obtain ⟨r, hr, hupdate⟩ := Option.map_eq_some_iff.mp hrest
          cases r with
          | inl found => cases hupdate
          | inr below =>
              cases hupdate
              obtain ⟨hbelow, habove⟩ := ih hr
              obtain ⟨l, hl, hlast⟩ := follow_some hwalk
              have hn' : n' = n ∨ ∃ j c, m.forwardOn j c = some n' := by
                rcases hl.getLast_cases hlast with heq | ⟨c, hc⟩
                · exact .inl heq
                · exact .inr ⟨h, c, (Option.filter_eq_some_iff.mp hc).1⟩
              refine ⟨fun i hi => ?_, fun i hi => ?_⟩
              · by_cases heq : i = h
                · subst heq
                  exact ⟨n', Function.update_self .., hn'⟩
                · obtain ⟨p, hp, hled⟩ := hbelow i (by omega)
                  refine ⟨p, by rw [Function.update_of_ne heq, hp], ?_⟩
                  rcases hled with rfl | hled
                  · exact hn'
                  · exact .inr hled
              · rw [Function.update_of_ne (by omega)]
                exact habove i (by omega)

/-- A node has been linked on some levels of a list. -/
structure Linked (start : LockFreeSkipList) (node : Fin arenaCapacity) (height levels : Nat)
    (m : LockFreeSkipList) : Prop where
  /-- walks end -/
  ends : ∀ i, Ends (m.forwardOn i)
  /-- what nothing led to is led to by nothing, this node apart -/
  fresh : ∀ n, n ≠ node → start.Fresh n → m.Fresh n
  /-- which is not reached on the levels to come -/
  unlinked : ∀ i, levels ≤ i → ∀ n, m.forwardOn i n ≠ some node
  /-- and has become the head if it is higher than the list -/
  head : m.head = if levels ≤ height then start.head else some node

section Linked

variable {start : LockFreeSkipList} {node : Fin arenaCapacity} {height k : Nat}
  {update : Nat → Ptr}

/-- **In front of the head**, on the first level that the list does not have. -/
theorem Linked.link_none (h : Linked start node height k m) (hstart : start.Fresh node)
    (hk : k ≤ height) (hnone : update k = none) (hheight : height ≤ k) :
    Linked start node height (k + 1) (link update node m k) := by
  have hhead : m.head = start.head := by rw [h.head, if_pos hk]
  simp only [link, hnone]
  have hforward : ∀ j, forwardOn { m.setForward node k m.head with head := some node } j =
      if j = k then Function.update (m.forwardOn k) node m.head else m.forwardOn j :=
    fun j => forwardOn_setForward m node k j m.head
  refine ⟨fun j => ?_, fun n hn hfresh => ⟨?_, fun j n' => ?_⟩, fun j hj n' => ?_, ?_⟩
  · rw [hforward]
    split
    · exact (h.ends k).update_of_fresh (h.unlinked k le_rfl) (hhead ▸ hstart.1)
    · exact h.ends j
  · exact fun heq => hn (Option.some.inj heq).symm
  · rw [hforward]
    split
    · rw [Function.update_apply]
      split
      · exact (h.fresh n hn hfresh).1
      · exact (h.fresh n hn hfresh).2 k n'
    · exact (h.fresh n hn hfresh).2 j n'
  · rw [hforward, if_neg (by omega)]
    exact h.unlinked j (by omega) n'
  · rw [if_neg (by omega)]

/-- **Behind another node**, on a level that the list has. -/
theorem Linked.link_some {p : Fin arenaCapacity} (h : Linked start node height k m)
    (hk : k < height) (hsome : update k = some p) (hne : p ≠ node) :
    Linked start node height (k + 1) (link update node m k) := by
  simp only [link, hsome]
  have hfresh' := h.unlinked k le_rfl
  -- two pointers of one level change: the new node takes over what its predecessor points at
  have hforward : ∀ j, ((m.setForward node k ((m.nodes p).forward k)).setForward p k
      (some node)).forwardOn j =
      if j = k then Function.update (Function.update (m.forwardOn k) node (m.forwardOn k p)) p
        (some node) else m.forwardOn j := by
    intro j
    rw [forwardOn_setForward, forwardOn_setForward, forwardOn_setForward]
    by_cases hj : j = k
    · simp only [hj, if_true]
      rfl
    · simp only [hj, if_false]
  have hunled : ∀ a, Function.update (m.forwardOn k) node (m.forwardOn k p) a ≠ some node := by
    intro a
    rw [Function.update_apply]
    split
    · exact hfresh' p
    · exact hfresh' a
  refine ⟨fun j => ?_, fun n hn hfresh => ⟨?_, fun j n' => ?_⟩, fun j hj n' => ?_, ?_⟩
  · rw [hforward]
    split
    · refine ((h.ends k).update_of_fresh hfresh' (hfresh' p)).insert_behind hunled hne ?_
      rw [Function.update_self, Function.update_of_ne hne]
    · exact h.ends j
  · exact (h.fresh n hn hfresh).1
  · rw [hforward]
    split
    · rw [Function.update_apply, Function.update_apply]
      split
      · exact fun heq => hn (Option.some.inj heq).symm
      · split
        · exact (h.fresh n hn hfresh).2 k p
        · exact (h.fresh n hn hfresh).2 k n'
    · exact (h.fresh n hn hfresh).2 j n'
  · rw [hforward, if_neg (by omega)]
    exact h.unlinked j (by omega) n'
  · have hhead := h.head
    rw [if_pos (by omega)] at hhead
    rw [if_pos (by omega)]
    exact hhead

/-- All levels of a node that is at most one level higher than the list. -/
theorem Linked.foldl_link (h : Linked start node height 0 m) (hstart : start.Fresh node)
    (hbelow : ∀ i < height, ∃ p, update i = some p ∧ p ≠ node)
    (habove : ∀ i, height ≤ i → update i = none) {levels : Nat} (hlevels : levels ≤ height + 1) :
    Linked start node height levels ((List.range levels).foldl (link update node) m) := by
  induction levels with
  | zero => exact h
  | succ k ih =>
      rw [List.range_succ, List.foldl_append, List.foldl_cons, List.foldl_nil]
      have hlinked := ih (by omega)
      rcases Nat.lt_or_ge k height with hlt | hge
      · obtain ⟨p, hp, hne⟩ := hbelow k hlt
        exact hlinked.link_some hlt hp hne
      · exact hlinked.link_none hstart (by omega) (habove k hge) hge

/-- **Two levels above the list** a node leads to itself. -/
theorem foldl_link_loop (habove : ∀ i, height ≤ i → update i = none) (levels : Nat) :
    (height + 1 ≤ levels →
        ((List.range levels).foldl (link update node) m).head = some node) ∧
      (height + 2 ≤ levels →
        ((List.range levels).foldl (link update node) m).forwardOn (height + 1) node =
          some node) := by
  induction levels with
  | zero => exact ⟨fun h => absurd h (Nat.not_succ_le_zero _), fun h => absurd h (by omega)⟩
  | succ k ih =>
      obtain ⟨m', hm'⟩ : ∃ m', (List.range k).foldl (link update node) m = m' := ⟨_, rfl⟩
      rw [hm'] at ih
      rw [List.range_succ, List.foldl_append, List.foldl_cons, List.foldl_nil, hm']
      refine ⟨fun hk => ?_, fun hk => ?_⟩
      · simp only [link, habove k (by omega)]
      · simp only [link, habove k (by omega)]
        have hforward := forwardOn_setForward m' node k (height + 1) m'.head
        refine (congrFun hforward node).trans ?_
        by_cases heq : height + 1 = k
        · rw [if_pos heq, Function.update_self]
          exact ih.1 (by omega)
        · rw [if_neg heq]
          exact ih.2 (by omega)

end Linked

/-- Linking changes neither the height nor the number of nodes. -/
theorem foldl_link_size (update : Nat → Ptr) (node : Fin arenaCapacity) (levels : List Nat)
    (m : LockFreeSkipList) :
    (levels.foldl (link update node) m).height = m.height ∧
      (levels.foldl (link update node) m).allocated = m.allocated := by
  induction levels generalizing m with
  | nil => exact ⟨rfl, rfl⟩
  | cons i levels ih =>
      have hlink : (link update node m i).height = m.height ∧
          (link update node m i).allocated = m.allocated := by
        rw [link]
        cases update i <;> exact ⟨rfl, rfl⟩
      obtain ⟨hheight, hallocated⟩ := ih (link update node m i)
      exact ⟨hheight.trans hlink.1, hallocated.trans hlink.2⟩

/-- The list before a new node is linked. -/
def withNode (m : LockFreeSkipList) (node : Fin arenaCapacity) (key value : Int) (level : Level) :
    LockFreeSkipList :=
  setNode { m with height := max m.height level, allocated := (m.allocated + 1) % 2 ^ 64 } node
    ⟨key, value, fun _ => none, level⟩

/-- **A new node** is linked on its levels, and then the height goes up, -/
theorem insertNew_of_room {update : Nat → Ptr} {key value : Int} {level : Level}
    (hroom : m.allocated < arenaCapacity) :
    m.insertNew update key value level =
      ({ (List.range level).foldl (link update ⟨m.allocated, hroom⟩)
          (m.withNode ⟨m.allocated, hroom⟩ key value level) with
        count := (((List.range level).foldl (link update ⟨m.allocated, hroom⟩)
          (m.withNode ⟨m.allocated, hroom⟩ key value level)).count + 1) % 2 ^ 64 }, true) := by
  simp only [insertNew, hroom, dite_true]
  rfl

/-- which it does also if there is no room. -/
theorem insertNew_of_full {update : Nat → Ptr} {key value : Int} {level : Level}
    (hfull : ¬ m.allocated < arenaCapacity) :
    m.insertNew update key value level =
      ({ m with height := max m.height level, allocated := (m.allocated + 1) % 2 ^ 64 },
        false) := by
  simp only [insertNew, hfull, dite_false]

/-- A new node leads nowhere. -/
theorem forwardOn_withNode (m : LockFreeSkipList) (node : Fin arenaCapacity) (key value : Int)
    (level : Level) (i : Nat) :
    (m.withNode node key value level).forwardOn i =
      Function.update (m.forwardOn i) node none := by
  funext n
  rw [forwardOn, withNode, setNode_nodes, Function.update_apply]
  split
  · rfl
  · rfl

/-- A new node is linked on no level yet. -/
theorem Sound.linked_withNode {node : Fin arenaCapacity} (h : m.Sound) (hfresh : m.Fresh node)
    (key value : Int) (level : Level) :
    Linked m node m.height 0 (m.withNode node key value level) := by
  refine ⟨fun i => ?_, fun n _ hn => ⟨hn.1, fun i n' => ?_⟩, fun i _ n' => ?_, ?_⟩
  · rw [forwardOn_withNode]
    exact (h.ends i).update_of_fresh (hfresh.2 i) nofun
  · rw [forwardOn_withNode, Function.update_apply]
    split
    · nofun
    · exact hn.2 i n'
  · rw [forwardOn_withNode, Function.update_apply]
    split
    · nofun
    · exact hfresh.2 i n'
  · rw [if_pos (Nat.zero_le _)]
    rfl

/-- A node that has been linked on a level is behind a head. -/
theorem Linked.head_ne_none {start : LockFreeSkipList} {node : Fin arenaCapacity} {levels : Nat}
    (h : Linked start node start.height levels m) (hstart : start.Sound) (hlevels : 0 < levels) :
    m.head ≠ none := by
  rw [h.head]
  split
  · next hle =>
      intro hnone
      have hempty := (hstart.empty hnone).1
      omega
  · exact nofun

/-- A new node that is at most one level higher than the list, or has no room. -/
theorem Sound.insertNew {update : Nat → Ptr} {key value : Int} {level : Level} (h : m.Sound)
    (hwrap : m.allocated + 1 < 2 ^ 64)
    (hbelow : ∀ i < m.height, ∃ p, update i = some p ∧
      (m.head = some p ∨ ∃ j n, m.forwardOn j n = some p))
    (habove : ∀ i, m.height ≤ i → update i = none)
    (hlevel : m.allocated < arenaCapacity → level.val ≤ m.height + 1) :
    (m.insertNew update key value level).1.Sound := by
  have hallocated : (m.allocated + 1) % 2 ^ 64 = m.allocated + 1 := Nat.mod_eq_of_lt hwrap
  by_cases hroom : m.allocated < arenaCapacity
  · obtain ⟨node, hnode⟩ : ∃ node : Fin arenaCapacity, node = ⟨m.allocated, hroom⟩ := ⟨_, rfl⟩
    rw [insertNew_of_room hroom, ← hnode]
    have hfresh : m.Fresh node := h.fresh node (by rw [hnode])
    have hbelow' : ∀ i < m.height, ∃ p, update i = some p ∧ p ≠ node := by
      intro i hi
      obtain ⟨p, hp, hled⟩ := hbelow i hi
      refine ⟨p, hp, ?_⟩
      rintro rfl
      rcases hled with hhead | ⟨j, n, hled⟩
      · exact hfresh.1 hhead
      · exact hfresh.2 j n hled
    have hlinked := (h.linked_withNode hfresh key value level).foldl_link hfresh hbelow' habove
      (hlevel hroom)
    have hsize : ((List.range level).foldl (link update node)
        (m.withNode node key value level)).allocated = m.allocated + 1 :=
      (foldl_link_size ..).2.trans hallocated
    refine ⟨hlinked.ends, fun n hn => ?_,
      fun hnone => absurd hnone (hlinked.head_ne_none h level.2.1)⟩
    have hle : m.allocated + 1 ≤ n := hsize ▸ hn
    have hne : n ≠ node := by
      rintro rfl
      rw [hnode] at hle
      exact absurd hle (Nat.not_succ_le_self _)
    exact hlinked.fresh n hne (h.fresh n (Nat.le_of_succ_le hle))
  · rw [insertNew_of_full hroom]
    have hcapacity : 0 < arenaCapacity := by decide
    refine h.congr (fun _ => rfl) rfl (show m.allocated ≤ (m.allocated + 1) % 2 ^ 64 by omega)
      fun hnone => ?_
    have hempty := (h.empty hnone).2
    omega

/-- A new node that is two levels higher than the list. -/
theorem not_walksEnd_insertNew {update : Nat → Ptr} {key value : Int} {level : Level}
    (hroom : m.allocated < arenaCapacity) (habove : ∀ i, m.height ≤ i → update i = none)
    (hlevel : m.height + 2 ≤ level.val) : ¬ (m.insertNew update key value level).1.WalksEnd := by
  rw [insertNew_of_room hroom]
  intro hends
  have hsize := foldl_link_size update ⟨m.allocated, hroom⟩ (List.range level)
    (m.withNode ⟨m.allocated, hroom⟩ key value level)
  have hheight : m.height + 1 < ((List.range level).foldl (link update ⟨m.allocated, hroom⟩)
      (m.withNode ⟨m.allocated, hroom⟩ key value level)).height := by
    rw [hsize.1]
    show m.height + 1 < max m.height level
    omega
  obtain ⟨l, hl⟩ := hends (m.height + 1) hheight ⟨m.allocated, hroom⟩
  exact not_trail_of_loop ((foldl_link_loop habove level).2 hlevel) l hl

/-! ## Calls -/

/-- `insert` takes a node for a key: the search does not find it, and there is room. -/
def TakesNode (m : LockFreeSkipList) (key : Int) : Prop :=
  m.allocated < arenaCapacity ∧
    ∀ head found, m.head = some head → m.insertDescend key m.height head ≠ some (.inl found)

/-- **The cases of `insert`**: the key is found, or a new node is inserted. -/
theorem insert_cases {key value : Int} {level : Level} {r : LockFreeSkipList × Bool}
    (h : m.Sound) (hinsert : m.insert key value level = some r) :
    (¬ m.TakesNode key ∧ ∃ n, r = (m.setNode n { m.nodes n with value := value }, true)) ∨
      ∃ update, r = m.insertNew update key value level ∧
        (m.allocated < arenaCapacity → m.TakesNode key) ∧
        (∀ i < m.height, ∃ p, update i = some p ∧
          (m.head = some p ∨ ∃ j n, m.forwardOn j n = some p)) ∧
        ∀ i, m.height ≤ i → update i = none := by
  rw [insert] at hinsert
  cases hhead : m.head with
  | none =>
      simp only [hhead] at hinsert
      refine .inr ⟨fun _ => none, (Option.some.inj hinsert).symm, fun hroom => ⟨hroom, ?_⟩, ?_,
        fun _ _ => rfl⟩
      · intro head found hsome
        rw [hhead] at hsome
        cases hsome
      · intro i hi
        rw [(h.empty hhead).1] at hi
        exact absurd hi (Nat.not_lt_zero i)
  | some head =>
      simp only [hhead] at hinsert
      obtain ⟨found, hdescend, hfound⟩ := Option.map_eq_some_iff.mp hinsert
      cases found with
      | inl n => exact .inl ⟨fun htakes => htakes.2 head n hhead hdescend, n, hfound.symm⟩
      | inr update =>
          obtain ⟨hbelow, habove⟩ := insertDescend_update hdescend
          refine .inr ⟨update, hfound.symm, fun hroom => ⟨hroom, ?_⟩, fun i hi => ?_, habove⟩
          · intro head' n hhead' hdescend'
            obtain rfl : head = head' := Option.some.inj (hhead.symm.trans hhead')
            rw [hdescend] at hdescend'
            cases hdescend'
          · obtain ⟨p, hp, hled⟩ := hbelow i hi
            exact ⟨p, hp, hled.imp_left fun heq => by rw [heq]⟩

/-- One call; a call that does not return leads nowhere. -/
def step (m : LockFreeSkipList) (c : SkipCall) : Option LockFreeSkipList :=
  (m.call c).map Prod.fst

/-- **The traversals terminate**: below the height a walk passes no node twice, and every
operation returns. -/
structure Terminates (m : LockFreeSkipList) : Prop where
  /-- a walk passes no node twice -/
  walks : ∀ i < m.height, ∀ n, ∃ l, Trail (m.forwardOn i) n l ∧ l.Nodup
  /-- and every operation returns -/
  returns : m.Returns

/-- The level of a new node is at most one above the list. -/
def LevelFits (m : LockFreeSkipList) : SkipCall → Prop
  | .insert key _ level => m.TakesNode key → level.val ≤ m.height + 1
  | .remove _ => True

/-- The counter of allocated nodes does not wrap. -/
def NoWrap (m : LockFreeSkipList) : SkipCall → Prop
  | .insert .. => m.allocated + 1 < 2 ^ 64
  | .remove _ => True

/-- In a sound list the traversals terminate. -/
theorem Sound.terminates (h : m.Sound) : m.Terminates where
  walks i _ n := by
    obtain ⟨l, hl⟩ := h.ends i n
    exact ⟨l, hl, hl.nodup⟩
  returns := h.walksEnd.returns (h.ends 0)

/-- A call keeps the list sound, if a node that it takes fits. -/
theorem Sound.step {c : SkipCall} (h : m.Sound) (hstep : m.step c = some m')
    (hwrap : m.NoWrap c) (hlevel : m.LevelFits c) : m'.Sound := by
  obtain ⟨r, hcall, rfl⟩ := Option.map_eq_some_iff.mp hstep
  cases c with
  | remove key => exact h.remove hcall
  | insert key value level =>
      rcases insert_cases h hcall with ⟨-, n, rfl⟩ | ⟨update, rfl, htakes, hbelow, habove⟩
      · refine h.congr (fun i => ?_) rfl le_rfl h.empty
        funext n'
        show ((m.setNode n _).nodes n').forward i = (m.nodes n').forward i
        rw [setNode_nodes]
        split
        · next heq => rw [heq]
        · rfl
      · exact h.insertNew hwrap hbelow habove fun hroom => hlevel (htakes hroom)

/-- **A node that does not fit** leads to itself on a level below the new height. -/
theorem levelFits_of_terminates {c : SkipCall} (h : m.Sound) (hstep : m.step c = some m')
    (hterminates : m'.Terminates) : m.LevelFits c := by
  cases c with
  | remove key => trivial
  | insert key value level =>
      intro htakes
      by_contra hlevel
      obtain ⟨r, hcall, rfl⟩ := Option.map_eq_some_iff.mp hstep
      rcases insert_cases h hcall with ⟨hfound, -⟩ | ⟨update, rfl, -, -, habove⟩
      · exact hfound htakes
      · have hends : ¬ (m.insertNew update key value level).1.WalksEnd :=
          not_walksEnd_insertNew htakes.1 habove (by omega)
        refine hends fun i hi n => ?_
        obtain ⟨l, hl, -⟩ := hterminates.walks i hi n
        exact ⟨l, hl⟩

/-- **The traversals terminate in every state of a run** if and only if no node that is taken
is two levels higher than the list. -/
theorem levelFits_iff_terminates (calls : List SkipCall)
    (hwrap : AllSteps step (fun m c _ => m.NoWrap c) new calls) :
    AllSteps step (fun m c _ => m.LevelFits c) new calls ↔ AllStates step Terminates new calls :=
  allSteps_iff_allStates_of_valid (fun _ (h : Sound _) => h.terminates)
    (fun _ _ _ h hstep hwrap hlevel => h.step hstep hwrap hlevel)
    (fun _ _ _ h hstep _ hterminates => levelFits_of_terminates h hstep hterminates)
    sound_new hwrap

/-- One key is inserted on the lowest level, and looked for to be removed. -/
theorem levelFits_iff_terminates_insertRemove :
    AllSteps step (fun m c _ => m.LevelFits c) new
        [.insert 100 1000 ⟨1, by decide⟩, .remove 100] ↔
      AllStates step Terminates new [.insert 100 1000 ⟨1, by decide⟩, .remove 100] :=
  levelFits_iff_terminates _ ⟨show 0 + 1 < 2 ^ 64 by decide, trivial, trivial⟩

/-- **The first key is inserted on all sixteen levels**, which is what the generator draws from
its fixed seed: on every level above the lowest the new node leads to itself. -/
theorem not_forall_terminates :
    ¬ ∀ calls : List SkipCall, AllStates step Terminates new calls := by
  intro hall
  obtain ⟨-, hterminates, -⟩ := hall [.insert 100 1000 ⟨16, by decide⟩]
  obtain ⟨l, hl, -⟩ := hterminates.walks 1 (by decide) ⟨0, by decide⟩
  have hloop : (new.insertNew (fun _ => none) 100 1000 ⟨16, by decide⟩).1.forwardOn 1
      ⟨0, by decide⟩ = some ⟨0, by decide⟩ := rfl
  exact not_trail_of_loop hloop l hl

end LockFreeSkipList

end StopTrading.DataStructures
