import StopTrading.DataStructures.RadixTree

/-!
# The insertion loop of the radix tree

`Sound` is the invariant of a tree whose pool was new: the nodes in use have the shape of a
trie and the others are as new.  `Stores` says what a tree stores.

The loop reaches the node of its key and leaves what is stored alone, if it renames no node
at or below which something is stored and does not end within a fragment (`Spares`,
`InsertRun.of_spares`).  If it does not spare the tree, the key, or one that was stored, leads
nowhere afterwards (`InsertRun.of_not_spares`).

### What is load-bearing

Where the source should split a fragment it overwrites one byte of it and cuts off the rest.  In
the trie this is the *renaming* of an edge, and everything at or below its node is renamed with
it.  So the question of whether an insertion does harm is asked of the tree before it: `Spares`
walks down along the key and asks at every node that is renamed whether something is stored there
or below.

`InsertRun` is the loop as a relation, with one case for each of its branches, so that the two
directions are two inductions over the same runs.  The direct one is what one expects.  The
converse needs a word that is lost: `renamed` finds the node that is renamed first, and a word
that led to it leads elsewhere now, since the new fragment is no prefix of what the old one was a
prefix of (`not_overwritten_prefix`).

`Sound` includes that the unused part of the pool is as new.  A tree after `clear` need not have
this, and its nodes come back with their old children; that is treated where calls are.
-/

namespace StopTrading.DataStructures

open MachineInt CompressedTrie

namespace RadixTree

/-- **A tree from a new pool.** -/
structure Sound (t : RadixTree) (root : Fin maxNodes) : Prop where
  /-- the nodes in use have the shape of a trie -/
  shape : Shape t.trie Fin.val
  /-- the others are as new -/
  spare : ∀ n, t.allocated ≤ n.val → t.nodes n = .new
  /-- the root is in use -/
  root_lt : root.val < t.allocated
  /-- and so are all children -/
  child_lt : ∀ {a b c}, (t.nodes a).children c = some b → b.val < t.allocated
  /-- as far as there are nodes -/
  le_max : t.allocated ≤ maxNodes

/-- A tree stores a value for a key. -/
def Stores (t : RadixTree) (root : Fin maxNodes) (key : List UInt8) (value : Int) : Prop :=
  ∃ n, Reach t.trie root key n ∧ (t.nodes n).isTerminal = true ∧ (t.nodes n).value = value

/-- Something is stored at a node or below it. -/
def LiveBelow (t : RadixTree) (n : Fin maxNodes) : Prop :=
  ∃ r n', Reach t.trie n r n' ∧ (t.nodes n').isTerminal = true

/-- **A key spares a tree** on its way down from a node: where it leaves a fragment, it goes
on, and nothing is stored at the node or below it. -/
inductive Spares (t : RadixTree) : Fin maxNodes → List UInt8 → Prop
  | done {current : Fin maxNodes} : Spares t current []
  | vacant {current : Fin maxNodes} {byte : UInt8} {key : List UInt8} :
      (t.nodes current).children byte = none → Spares t current (byte :: key)
  | unused {current child : Fin maxNodes} {byte : UInt8} {fragment key : List UInt8} :
      (t.nodes current).children byte = some child →
      (t.nodes child).fragment = byte :: fragment →
      matchLen fragment key < fragment.length → matchLen fragment key < key.length →
      ¬ t.LiveBelow child → Spares t child (key.drop (matchLen fragment key + 1)) →
      Spares t current (byte :: key)
  | descend {current child : Fin maxNodes} {byte : UInt8} {fragment key : List UInt8} :
      (t.nodes current).children byte = some child →
      (t.nodes child).fragment = byte :: fragment → Spares t child key →
      Spares t current (byte :: (fragment ++ key))

variable {t : RadixTree} {root : Fin maxNodes}

namespace Sound

/-- Nodes that are reached from a node in use are in use. -/
theorem reach_lt (h : t.Sound root) {a b : Fin maxNodes} {r : List UInt8}
    (ha : a.val < t.allocated) (hreach : Reach t.trie a r b) : b.val < t.allocated := by
  rcases hreach.last with ⟨-, rfl⟩ | ⟨e, c, f, r', -, hchild, -, -⟩
  · exact ha
  · exact h.child_lt hchild

/-- The next node of the pool is new. -/
theorem newLeaf (h : t.Sound root) (hroom : t.allocated < maxNodes) {current : Fin maxNodes}
    {byte : UInt8} (hcurrent : current.val < t.allocated)
    (hvacant : (t.nodes current).children byte = none) :
    NewLeaf t.trie Fin.val current byte ⟨t.allocated, hroom⟩ where
  vacant := hvacant
  childless c' := by
    show (t.nodes ⟨t.allocated, hroom⟩).children c' = none
    rw [h.spare _ le_rfl]
    rfl
  orphan x c' hchild := absurd (h.child_lt hchild) (lt_irrefl _)
  rank_lt := hcurrent

end Sound

/-! ## The writes of the loop -/

/-- Two trees have the same values in their nodes. -/
def SameValues (t t' : RadixTree) : Prop :=
  ∀ n, (t'.nodes n).isTerminal = (t.nodes n).isTerminal ∧ (t'.nodes n).value = (t.nodes n).value

/-- A new fragment changes no value, -/
theorem sameValues_setFragment (t : RadixTree) (n : Fin maxNodes) (fragment : List UInt8) :
    SameValues t (t.setFragment n fragment) := by
  intro n'
  rw [setFragment_nodes]
  split
  · next h => rw [h]; exact ⟨rfl, rfl⟩
  · exact ⟨rfl, rfl⟩

/-- nor does a new child, -/
theorem sameValues_setChild (t : RadixTree) (n child : Fin maxNodes) (byte : UInt8) :
    SameValues t (t.setChild n byte child) := by
  intro n'
  rw [setChild, setNode_nodes]
  split
  · next h => rw [h]; exact ⟨rfl, rfl⟩
  · exact ⟨rfl, rfl⟩

/-- What is stored stays if the words to the terminal nodes stay. -/
theorem SameValues.stores_iff {t' : RadixTree} (h : SameValues t t')
    (hreach : ∀ n, (t.nodes n).isTerminal = true → ∀ key,
      Reach t'.trie root key n ↔ Reach t.trie root key n) (key : List UInt8) (value : Int) :
    t'.Stores root key value ↔ t.Stores root key value := by
  refine exists_congr fun n => ?_
  rw [(h n).1, (h n).2]
  constructor
  · rintro ⟨hkey, hterminal, hvalue⟩
    exact ⟨(hreach n hterminal key).mp hkey, hterminal, hvalue⟩
  · rintro ⟨hkey, hterminal, hvalue⟩
    exact ⟨(hreach n hterminal key).mpr hkey, hterminal, hvalue⟩

/-- The tree after a node has been hung below another. -/
def hang (t : RadixTree) (node current : Fin maxNodes) (byte : UInt8) (fragment : List UInt8) :
    RadixTree :=
  (t.allocate.1.setFragment node (byte :: fragment)).setChild current byte node

/-- nor a node that is hung below another. -/
theorem sameValues_hang (t : RadixTree) (node current : Fin maxNodes) (byte : UInt8)
    (fragment : List UInt8) : SameValues t (t.hang node current byte fragment) := by
  intro n
  obtain ⟨hterminal, hvalue⟩ := sameValues_setChild
    (t.allocate.1.setFragment node (byte :: fragment)) current node byte n
  obtain ⟨hterminal', hvalue'⟩ :=
    sameValues_setFragment t.allocate.1 node (byte :: fragment) n
  exact ⟨hterminal.trans hterminal', hvalue.trans hvalue'⟩

namespace Sound

section Hang

variable {current : Fin maxNodes} {byte : UInt8}

/-- In the trie, a leaf is added. -/
theorem trie_hang (hroom : t.allocated < maxNodes) (hcurrent : current.val < t.allocated)
    (fragment : List UInt8) :
    (t.hang ⟨t.allocated, hroom⟩ current byte fragment).trie =
      t.trie.addLeaf current byte ⟨t.allocated, hroom⟩ fragment :=
  trie_addLeaf t.allocate.1 (by rintro rfl; exact absurd hcurrent (lt_irrefl _)) byte fragment

/-- One node more is in use. -/
theorem allocated_hang (hroom : t.allocated < maxNodes) (fragment : List UInt8) :
    (t.hang ⟨t.allocated, hroom⟩ current byte fragment).allocated = t.allocated + 1 :=
  Nat.mod_eq_of_lt (lt_of_le_of_lt hroom (by decide))

/-- Hanging a new node below another keeps the tree sound. -/
theorem hang (h : t.Sound root) (hroom : t.allocated < maxNodes)
    (hcurrent : current.val < t.allocated) (hvacant : (t.nodes current).children byte = none)
    (fragment : List UInt8) : (t.hang ⟨t.allocated, hroom⟩ current byte fragment).Sound root := by
  have htrie : (t.hang ⟨t.allocated, hroom⟩ current byte fragment).trie = _ :=
    trie_hang hroom hcurrent fragment
  have hallocated : (t.hang ⟨t.allocated, hroom⟩ current byte fragment).allocated =
      t.allocated + 1 := allocated_hang hroom fragment
  refine ⟨?_, fun n hn => ?_, ?_, fun {a b c} hchild => ?_, ?_⟩
  · rw [htrie]
    exact h.shape.addLeaf (h.newLeaf hroom hcurrent hvacant) fragment
  · rw [hallocated] at hn
    rw [RadixTree.hang, setChild, setNode_nodes, if_neg, setFragment_nodes, if_neg]
    · exact h.spare n (by omega)
    · rintro rfl
      simp only at hn
      omega
    · rintro rfl
      omega
  · have hroot := h.root_lt
    rw [hallocated]
    omega
  · rw [hallocated]
    have hchild' : (t.trie.addLeaf current byte ⟨t.allocated, hroom⟩ fragment).child a c = some b :=
      htrie ▸ hchild
    rw [Trie.child_addLeaf] at hchild'
    split_ifs at hchild'
    · cases hchild'
      exact Nat.lt_succ_self _
    · exact (h.child_lt hchild').trans (Nat.lt_succ_self _)
  · rw [hallocated]
    exact hroom

/-- A new node stores nothing, and leaves alone what is stored. -/
theorem stores_hang (h : t.Sound root) (hroom : t.allocated < maxNodes)
    (hcurrent : current.val < t.allocated) (hvacant : (t.nodes current).children byte = none)
    (fragment : List UInt8) (key : List UInt8) (value : Int) :
    (t.hang ⟨t.allocated, hroom⟩ current byte fragment).Stores root key value ↔
      t.Stores root key value := by
  refine (sameValues_hang t ⟨t.allocated, hroom⟩ current byte fragment).stores_iff
    (fun n hterminal key => ?_) key value
  rw [trie_hang hroom hcurrent]
  refine (h.newLeaf hroom hcurrent hvacant).reach_iff ?_
  rintro rfl
  rw [h.spare _ le_rfl] at hterminal
  cases hterminal

end Hang

section Rename

variable {current child : Fin maxNodes} {byte : UInt8}

/-- Renaming a child keeps the tree sound. -/
theorem rename (h : t.Sound root) (hchild : (t.nodes current).children byte = some child)
    (fragment : List UInt8) : (t.setFragment child (byte :: fragment)).Sound root := by
  refine ⟨?_, fun n hn => ?_, h.root_lt, fun {a b c} hab => ?_, h.le_max⟩
  · rw [trie_setFragment]
    exact h.shape.rename hchild fragment
  · rw [setFragment_nodes, if_neg]
    · exact h.spare n hn
    · rintro rfl
      exact absurd (h.child_lt hchild) (not_lt_of_ge hn)
  · rw [setFragment_nodes] at hab
    split at hab
    · exact h.child_lt hab
    · exact h.child_lt hab

/-- Renaming a node leaves alone what is stored, if nothing is stored there or below. -/
theorem stores_rename (h : t.Sound root) (hchild : (t.nodes current).children byte = some child)
    (hdead : ¬ t.LiveBelow child) (fragment : List UInt8) (key : List UInt8) (value : Int) :
    (t.setFragment child (byte :: fragment)).Stores root key value ↔ t.Stores root key value := by
  refine (sameValues_setFragment t child (byte :: fragment)).stores_iff
    (fun n hterminal key => ?_) key value
  rw [trie_setFragment]
  exact h.shape.reach_rename_iff hchild fun r hreach => hdead ⟨r, n, hreach, hterminal⟩

end Rename

end Sound

/-! ## The loop -/

/-- What becomes of a fragment behind its first byte. -/
def overwritten (fragment key : List UInt8) : List UInt8 :=
  fragment.take (matchLen fragment key) ++ [(key.drop (matchLen fragment key)).headD 0]

/-- **The loop of `insert`**, when it ends at a node. -/
inductive InsertRun :
    RadixTree → Fin maxNodes → List UInt8 → RadixTree → Fin maxNodes → Prop
  | done {t : RadixTree} {current : Fin maxNodes} : InsertRun t current [] t current
  | hang {t t' : RadixTree} {current last : Fin maxNodes} {byte : UInt8} {key : List UInt8}
      (hvacant : (t.nodes current).children byte = none) (hroom : t.allocated < maxNodes) :
      InsertRun (t.hang ⟨t.allocated, hroom⟩ current byte (key.take 7)) ⟨t.allocated, hroom⟩
        (key.drop 7) t' last → InsertRun t current (byte :: key) t' last
  | rename {t t' : RadixTree} {current child last : Fin maxNodes} {byte : UInt8}
      {fragment key : List UInt8} (hchild : (t.nodes current).children byte = some child)
      (hfragment : (t.nodes child).fragment = byte :: fragment)
      (hlt : matchLen fragment key < fragment.length) :
      InsertRun (t.setFragment child (byte :: overwritten fragment key)) child
        (key.drop (matchLen fragment key + 1)) t' last → InsertRun t current (byte :: key) t' last
  | descend {t t' : RadixTree} {current child last : Fin maxNodes} {byte : UInt8}
      {fragment key : List UInt8} (hchild : (t.nodes current).children byte = some child)
      (hfragment : (t.nodes child).fragment = byte :: fragment) :
      InsertRun t child key t' last → InsertRun t current (byte :: (fragment ++ key)) t' last

/-- **No child**: a new node takes up to eight bytes of the key. -/
theorem insertLoop_vacant {current : Fin maxNodes} {byte : UInt8}
    (hvacant : (t.nodes current).children byte = none) (rounds : Nat) (key : List UInt8) :
    insertLoop (rounds + 1) t current (byte :: key) =
      if hroom : t.allocated < maxNodes then
        insertLoop rounds (t.hang ⟨t.allocated, hroom⟩ current byte (key.take 7))
          ⟨t.allocated, hroom⟩ (key.drop 7)
      else some (t.allocate.1, none) := by
  rw [insertLoop]
  simp only [hvacant]
  unfold allocate
  split_ifs <;> rfl

/-- **A child**: its fragment is followed as far as it goes, and overwritten there. -/
theorem insertLoop_child {current child : Fin maxNodes} {byte : UInt8} {fragment : List UInt8}
    (hchild : (t.nodes current).children byte = some child)
    (hfragment : (t.nodes child).fragment = byte :: fragment) (rounds : Nat)
    (key : List UInt8) :
    insertLoop (rounds + 1) t current (byte :: key) =
      if matchLen fragment key < fragment.length then
        insertLoop rounds (t.setFragment child (byte :: overwritten fragment key)) child
          (key.drop (matchLen fragment key + 1))
      else insertLoop rounds t child (key.drop (matchLen fragment key)) := by
  rw [insertLoop]
  simp only [hchild, hfragment, matchLen, if_true, List.length_cons, Nat.add_lt_add_iff_right,
    List.drop_succ_cons, List.drop_drop, List.take_succ_cons, List.cons_append, overwritten]

/-- **The loop ends**, at a node or with the pool exhausted. -/
theorem Sound.insertLoop_cases {rounds : Nat} {current : Fin maxNodes} {key : List UInt8}
    (h : t.Sound root) (hcurrent : current.val < t.allocated) (hrounds : key.length ≤ rounds) :
    (∃ t' last, insertLoop rounds t current key = some (t', some last) ∧
        InsertRun t current key t' last) ∨
      ∃ t', insertLoop rounds t current key = some (t', none) ∧ maxNodes < t'.allocated := by
  induction rounds generalizing t current key with
  | zero =>
      rw [List.length_eq_zero_iff.mp (Nat.le_zero.mp hrounds)]
      exact .inl ⟨t, current, rfl, .done⟩
  | succ rounds ih =>
      cases key with
      | nil => exact .inl ⟨t, current, rfl, .done⟩
      | cons byte key =>
          rw [List.length_cons] at hrounds
          cases hchild : (t.nodes current).children byte with
          | none =>
              rw [insertLoop_vacant hchild]
              split_ifs with hroom
              · have hnew : (⟨t.allocated, hroom⟩ : Fin maxNodes).val <
                    (t.hang ⟨t.allocated, hroom⟩ current byte (key.take 7)).allocated := by
                  rw [allocated_hang]
                  exact Nat.lt_succ_self _
                have hrest : (key.drop 7).length ≤ rounds := by
                  rw [List.length_drop]
                  omega
                rcases ih (h.hang hroom hcurrent hchild (key.take 7)) hnew hrest with
                  ⟨t', last, hloop, hrun⟩ | hexhausted
                · exact .inl ⟨t', last, hloop, .hang hchild hroom hrun⟩
                · exact .inr hexhausted
              · -- the counter is advanced although there is no node left
                have hfull : t.allocated = maxNodes := le_antisymm h.le_max (not_lt.mp hroom)
                refine .inr ⟨_, rfl, ?_⟩
                show maxNodes < (t.allocated + 1) % 2 ^ 64
                rw [hfull]
                decide
          | some child =>
              obtain ⟨fragment, hfragment⟩ := h.shape.starts hchild
              have hfragment' : (t.nodes child).fragment = byte :: fragment := hfragment
              rw [insertLoop_child hchild hfragment']
              split_ifs with hlt
              · -- the fragment is left early and overwritten; the rest of the key goes below it
                have hrest : (key.drop (matchLen fragment key + 1)).length ≤ rounds := by
                  rw [List.length_drop]
                  omega
                have hsound := h.rename hchild (overwritten fragment key)
                rcases ih hsound (h.child_lt hchild) hrest with
                  ⟨t', last, hloop, hrun⟩ | hexhausted
                · exact .inl ⟨t', last, hloop, .rename hchild hfragment' hlt hrun⟩
                · exact .inr hexhausted
              · -- the whole fragment is a prefix of the key
                have hmatched : matchLen fragment key = fragment.length :=
                  le_antisymm (matchLen_le ..) (not_lt.mp hlt)
                obtain ⟨rest, rfl⟩ := matchLen_eq_length_iff.mp hmatched
                rw [List.length_append] at hrounds
                have hrest : rest.length ≤ rounds := by omega
                rw [hmatched, List.drop_left]
                rcases ih h (h.child_lt hchild) hrest with ⟨t', last, hloop, hrun⟩ | hexhausted
                · exact .inl ⟨t', last, hloop, .descend hchild hfragment' hrun⟩
                · exact .inr hexhausted

namespace InsertRun

variable {t' : RadixTree} {current last : Fin maxNodes} {key : List UInt8}

/-- The loop keeps the tree sound. -/
theorem sound (hrun : InsertRun t current key t' last) (h : t.Sound root)
    (hcurrent : current.val < t.allocated) : t'.Sound root := by
  induction hrun with
  | done => exact h
  | hang hvacant hroom _ ih =>
      refine ih (h.hang hroom hcurrent hvacant _) ?_
      rw [Sound.allocated_hang]
      exact Nat.lt_succ_self _
  | rename hchild _ _ _ ih => exact ih (h.rename hchild _) (h.child_lt hchild)
  | descend hchild _ _ ih => exact ih h (h.child_lt hchild)

/-- The loop leaves the root and the count alone. -/
theorem root_count (hrun : InsertRun t current key t' last) :
    t'.root = t.root ∧ t'.count = t.count := by
  induction hrun with
  | done => exact ⟨rfl, rfl⟩
  | hang _ _ _ ih => exact ih
  | rename _ _ _ _ ih => exact ih
  | descend _ _ _ ih => exact ih

/-- **What the loop leaves alone**: the fragments up to the node it starts at, and the children
before it. -/
theorem frame (hrun : InsertRun t current key t' last) (h : t.Sound root)
    (hcurrent : current.val < t.allocated) :
    (∀ n : Fin maxNodes, n.val < current.val → t'.trie.child n = t.trie.child n) ∧
      ∀ n : Fin maxNodes, n.val ≤ current.val → t'.trie.fragment n = t.trie.fragment n := by
  induction hrun with
  | done => exact ⟨fun _ _ => rfl, fun _ _ => rfl⟩
  | @hang t t' current last byte key hvacant hroom _ ih =>
      obtain ⟨hchild, hfragment⟩ := ih (h.hang hroom hcurrent hvacant _) (by
        rw [Sound.allocated_hang]
        exact Nat.lt_succ_self _)
      refine ⟨fun n hn => ?_, fun n hn => ?_⟩
      · rw [hchild n (hn.trans hcurrent), Sound.trie_hang hroom hcurrent]
        exact Function.update_of_ne (by rintro rfl; exact absurd hn (lt_irrefl _)) ..
      · rw [hfragment n (hn.trans hcurrent.le), Sound.trie_hang hroom hcurrent]
        exact Function.update_of_ne (by rintro rfl; exact absurd hcurrent (not_lt_of_ge hn)) ..
  | @rename t t' current child last byte fragment key hchild _ _ _ ih =>
      have hlt : current.val < child.val := h.shape.rank_lt hchild
      obtain ⟨hchildren, hfragment⟩ := ih (h.rename hchild _) (h.child_lt hchild)
      refine ⟨fun n hn => ?_, fun n hn => ?_⟩
      · rw [hchildren n (hn.trans hlt), trie_setFragment]
        rfl
      · rw [hfragment n (hn.trans hlt.le), trie_setFragment]
        exact Function.update_of_ne (by rintro rfl; exact absurd hlt (not_lt_of_ge hn)) ..
  | descend hchild _ _ ih =>
      have hlt := h.shape.rank_lt hchild
      obtain ⟨hchildren, hfragment⟩ := ih h (h.child_lt hchild)
      exact ⟨fun n hn => hchildren n (hn.trans hlt), fun n hn => hfragment n (hn.trans hlt.le)⟩

end InsertRun

/-! ## Sparing the tree -/

/-- Renaming a node does not change what is stored below it. -/
theorem Sound.liveBelow_rename {current child n : Fin maxNodes} {byte : UInt8}
    (h : t.Sound root) (hchild : (t.nodes current).children byte = some child)
    (fragment : List UInt8) (hrank : child.val ≤ n.val) :
    (t.setFragment child (byte :: fragment)).LiveBelow n ↔ t.LiveBelow n := by
  have hsame := sameBut_rename t.trie child (byte :: fragment)
  have hvalues := sameValues_setFragment t child (byte :: fragment)
  rw [← trie_setFragment] at hsame
  constructor
  · rintro ⟨r, n', hreach, hterminal⟩
    exact ⟨r, n', hsame.symm.reach_of_rank (h.rename hchild fragment).shape hreach hrank,
      (hvalues n').1 ▸ hterminal⟩
  · rintro ⟨r, n', hreach, hterminal⟩
    exact ⟨r, n', hsame.reach_of_rank h.shape hreach hrank, (hvalues n').1 ▸ hterminal⟩

/-- What a key spares in a tree it spares in one that differs in a fragment further up. -/
theorem Spares.congr {t' : RadixTree} {b current : Fin maxNodes} {key : List UInt8}
    (hspares : Spares t current key) (hshape : Shape t.trie Fin.val)
    (hsame : SameBut t.trie t'.trie b) (hrank : b.val ≤ current.val)
    (hlive : ∀ n : Fin maxNodes, b.val ≤ n.val → t'.LiveBelow n → t.LiveBelow n) :
    Spares t' current key := by
  have hchildren : ∀ n, (t'.nodes n).children = (t.nodes n).children := fun n =>
    congrFun hsame.child n
  have hfragments : ∀ n, n ≠ b → (t'.nodes n).fragment = (t.nodes n).fragment := hsame.fragment
  induction hspares with
  | done => exact .done
  | vacant hvacant => exact .vacant (by rw [hchildren]; exact hvacant)
  | @unused current child byte fragment key hchild hfragment hlt hkey hdead _ ih =>
      have hbelow : b.val < child.val := lt_of_le_of_lt hrank (hshape.rank_lt hchild)
      refine .unused (by rw [hchildren]; exact hchild) ?_ hlt hkey
        (fun hlive' => hdead (hlive child hbelow.le hlive')) (ih hbelow.le)
      rw [hfragments, hfragment]
      rintro rfl
      exact absurd hbelow (lt_irrefl _)
  | @descend current child byte fragment key hchild hfragment _ ih =>
      have hbelow : b.val < child.val := lt_of_le_of_lt hrank (hshape.rank_lt hchild)
      refine .descend (by rw [hchildren]; exact hchild) ?_ (ih hbelow.le)
      rw [hfragments, hfragment]
      rintro rfl
      exact absurd hbelow (lt_irrefl _)

/-- A key spares a tree at a new node. -/
theorem Sound.spares_hang {current : Fin maxNodes} {byte : UInt8} (h : t.Sound root)
    (hroom : t.allocated < maxNodes) (hcurrent : current.val < t.allocated)
    (hvacant : (t.nodes current).children byte = none) (fragment key : List UInt8) :
    Spares (t.hang ⟨t.allocated, hroom⟩ current byte fragment) ⟨t.allocated, hroom⟩ key := by
  have hnew := h.newLeaf hroom hcurrent hvacant
  cases key with
  | nil => exact .done
  | cons byte' key =>
      refine .vacant ?_
      show (t.hang ⟨t.allocated, hroom⟩ current byte fragment).trie.child _ byte' = none
      rw [trie_hang hroom hcurrent, Trie.child_addLeaf, if_neg]
      · exact hnew.childless byte'
      · rintro ⟨rfl, -⟩
        exact absurd hcurrent (lt_irrefl _)

/-- Renaming a node does not change what a key spares below it. -/
theorem Sound.spares_rename {current child : Fin maxNodes} {byte : UInt8}
    {key : List UInt8} (h : t.Sound root) (hchild : (t.nodes current).children byte = some child)
    (fragment : List UInt8) :
    Spares (t.setFragment child (byte :: fragment)) child key ↔ Spares t child key := by
  have hsame := sameBut_rename t.trie child (byte :: fragment)
  rw [← trie_setFragment] at hsame
  exact ⟨fun hspares => hspares.congr (h.rename hchild fragment).shape hsame.symm le_rfl
      fun n hn => (h.liveBelow_rename hchild fragment hn).mpr,
    fun hspares => hspares.congr h.shape hsame le_rfl
      fun n hn => (h.liveBelow_rename hchild fragment hn).mp⟩

/-- What a key spares at a child. -/
theorem Spares.child_cases {current child : Fin maxNodes} {byte : UInt8}
    {fragment key : List UInt8} (h : Spares t current (byte :: key))
    (hchild : (t.nodes current).children byte = some child)
    (hfragment : (t.nodes child).fragment = byte :: fragment) :
    (matchLen fragment key < fragment.length ∧ matchLen fragment key < key.length ∧
        ¬ t.LiveBelow child ∧ Spares t child (key.drop (matchLen fragment key + 1))) ∨
      ∃ rest, key = fragment ++ rest ∧ Spares t child rest := by
  generalize hword : byte :: key = word at h
  cases h with
  | done => cases hword
  | vacant hvacant =>
      cases hword
      rw [hvacant] at hchild
      cases hchild
  | unused hchild' hfragment' hlt hkey hdead hrest =>
      cases hword
      cases hchild.symm.trans hchild'
      cases hfragment.symm.trans hfragment'
      exact .inl ⟨hlt, hkey, hdead, hrest⟩
  | descend hchild' hfragment' hrest =>
      rw [List.cons.injEq] at hword
      obtain ⟨rfl, rfl⟩ := hword
      cases hchild.symm.trans hchild'
      cases hfragment.symm.trans hfragment'
      exact .inr ⟨_, rfl, hrest⟩

/-- A fragment whose byte is overwritten and what is left of the key. -/
theorem overwritten_append {fragment key : List UInt8}
    (hkey : matchLen fragment key < key.length) :
    overwritten fragment key ++ key.drop (matchLen fragment key + 1) = key := by
  rw [overwritten, take_matchLen, List.drop_eq_getElem_cons hkey, List.headD_cons,
    List.append_assoc, List.singleton_append, ← List.drop_eq_getElem_cons hkey,
    List.take_append_drop]

/-- What is overwritten ends right behind the common part. -/
theorem length_overwritten {fragment key : List UInt8}
    (hlt : matchLen fragment key < fragment.length) :
    (overwritten fragment key).length = matchLen fragment key + 1 := by
  rw [overwritten, List.length_append, List.length_take, List.length_singleton,
    Nat.min_eq_left hlt.le]

/-- An overwritten fragment is no prefix of what the fragment was a prefix of. -/
theorem not_overwritten_prefix {fragment key : List UInt8}
    (hlt : matchLen fragment key < fragment.length) (hkey : matchLen fragment key < key.length)
    (r : List UInt8) : ¬ overwritten fragment key <+: fragment ++ r := by
  intro hprefix
  have hindex : matchLen fragment key < (overwritten fragment key).length := by
    rw [length_overwritten hlt]
    exact Nat.lt_succ_self _
  have hkey' : overwritten fragment key <+: key := ⟨_, overwritten_append hkey⟩
  have hold := hprefix.getElem hindex
  rw [hkey'.getElem hindex, List.getElem_append_left hlt] at hold
  exact getElem_matchLen_ne hlt hkey hold.symm

namespace InsertRun

variable {t' : RadixTree} {current last : Fin maxNodes} {key word : List UInt8}

/-- **A key that spares the tree** leads to the node at which the loop ends, and what is
stored stays. -/
theorem of_spares (hrun : InsertRun t current key t' last) (h : t.Sound root)
    (hreach : Reach t.trie root word current) (hspares : Spares t current key) :
    Reach t'.trie root (word ++ key) last ∧
      ∀ k value, t'.Stores root k value ↔ t.Stores root k value := by
  induction hrun generalizing word with
  | done => exact ⟨(List.append_nil word).symm ▸ hreach, fun _ _ => Iff.rfl⟩
  | @hang t t' current last byte key hvacant hroom _ ih =>
      have hcurrent := h.reach_lt h.root_lt hreach
      have hnew := h.newLeaf hroom hcurrent hvacant
      have hspares' : Spares (t.hang ⟨t.allocated, hroom⟩ current byte (key.take 7))
          ⟨t.allocated, hroom⟩ (key.drop 7) := h.spares_hang hroom hcurrent hvacant _ _
      have hreach' := hnew.reach_leaf (f := key.take 7) hreach
      rw [← Sound.trie_hang hroom hcurrent] at hreach'
      obtain ⟨hlast, hstores⟩ := ih (h.hang hroom hcurrent hvacant _) hreach' hspares'
      rw [List.append_assoc, List.cons_append, List.take_append_drop] at hlast
      exact ⟨hlast, fun k value => (hstores k value).trans
        (h.stores_hang hroom hcurrent hvacant _ k value)⟩
  | @rename t t' current child last byte fragment key hchild hfragment hlt _ ih =>
      obtain ⟨-, hkey, hdead, hrest⟩ | ⟨rest, rfl, -⟩ := hspares.child_cases hchild hfragment
      · have hreach' := h.shape.reach_rename hchild hreach (f := overwritten fragment key)
        rw [← trie_setFragment] at hreach'
        obtain ⟨hlast, hstores⟩ := ih (h.rename hchild _) hreach'
          ((h.spares_rename hchild _).mpr hrest)
        rw [List.append_assoc, List.cons_append, overwritten_append hkey] at hlast
        exact ⟨hlast, fun k value => (hstores k value).trans
          (h.stores_rename hchild hdead _ k value)⟩
      · rw [matchLen_eq_length_iff.mpr (List.prefix_append ..)] at hlt
        exact absurd hlt (lt_irrefl _)
  | @descend t t' current child last byte fragment key hchild hfragment _ ih =>
      obtain ⟨hlt, -⟩ | ⟨rest, hrest, hspares'⟩ := hspares.child_cases hchild hfragment
      · rw [matchLen_eq_length_iff.mpr (List.prefix_append ..)] at hlt
        exact absurd hlt (lt_irrefl _)
      · cases List.append_cancel_left hrest
        obtain ⟨hlast, hstores⟩ := ih h (hreach.trans (.single hchild hfragment)) hspares'
        rw [List.append_assoc, List.cons_append] at hlast
        exact ⟨hlast, hstores⟩

/-- The word to where a node is renamed, and the node's new fragment, after the loop. -/
theorem renamed {child : Fin maxNodes} {byte : UInt8} {fragment rest : List UInt8}
    (hrun : InsertRun (t.setFragment child (byte :: fragment)) child rest t' last)
    (h : t.Sound root) (hchild : (t.nodes current).children byte = some child)
    (hreach : Reach t.trie root word current) {r : List UInt8} {n : Fin maxNodes}
    (hword : Reach t'.trie root (word ++ byte :: r) n) : fragment <+: r := by
  have hlt : current.val < child.val := h.shape.rank_lt hchild
  obtain ⟨hchildren, hfragments⟩ := hrun.frame (h.rename hchild fragment) (h.child_lt hchild)
  have hfragment : t'.trie.fragment child = byte :: fragment := by
    rw [hfragments child le_rfl, trie_setFragment]
    exact Function.update_self ..
  have hchild' : t'.trie.child current byte = some child := by
    rw [hchildren current hlt, trie_setFragment]
    exact hchild
  -- The nodes before the renamed one are as they were.
  have hreach' : Reach t'.trie root word current := by
    refine hreach.frame h.shape (fun y hy => ?_) fun y hy => ?_
    · rw [hchildren y (hy.trans hlt), trie_setFragment]
      rfl
    · rw [hfragments y (hy.trans hlt.le), trie_setFragment]
      exact Function.update_of_ne (by rintro rfl; exact absurd hlt (not_lt_of_ge hy)) ..
  have hrest := hreach'.cancel hword
  generalize hlist : byte :: r = list at hrest
  cases hrest with
  | refl => cases hlist
  | step hstep hstep' _ =>
      rw [List.cons_append, List.cons.injEq] at hlist
      obtain ⟨rfl, rfl⟩ := hlist
      cases hchild'.symm.trans hstep
      cases hfragment.symm.trans hstep'
      exact List.prefix_append ..

/-- **A key that does not spare the tree**: it, or one that was stored, leads nowhere
afterwards. -/
theorem of_not_spares (hrun : InsertRun t current key t' last) (h : t.Sound root)
    (hreach : Reach t.trie root word current) (hnot : ¬ Spares t current key) :
    ∃ k, (k = word ++ key ∨ ∃ value, t.Stores root k value) ∧
      ∀ n, ¬ Reach t'.trie root k n := by
  induction hrun generalizing word with
  | done => exact absurd .done hnot
  | hang hvacant _ _ _ => exact absurd (.vacant hvacant) hnot
  | @rename t t' current child last byte fragment key hchild hfragment hlt hrun ih =>
      by_cases hkey : matchLen fragment key < key.length
      · by_cases hlive : t.LiveBelow child
        · -- What is stored at the node or below it has got another word.
          obtain ⟨r, n, hr, hterminal⟩ := hlive
          refine ⟨word ++ byte :: (fragment ++ r), .inr ⟨_, n, ?_, hterminal, rfl⟩,
            fun n' hn' => ?_⟩
          · exact hreach.trans (.step hchild hfragment hr)
          · exact not_overwritten_prefix hlt hkey r (hrun.renamed h hchild hreach hn')
        · have hnot' : ¬ Spares t child (key.drop (matchLen fragment key + 1)) := fun hspares =>
            hnot (.unused hchild hfragment hlt hkey hlive hspares)
          have hreach' := h.shape.reach_rename hchild hreach (f := overwritten fragment key)
          rw [← trie_setFragment] at hreach'
          obtain ⟨k, hk, hlost⟩ := ih (h.rename hchild _) hreach'
            (fun hspares => hnot' ((h.spares_rename hchild _).mp hspares))
          rw [List.append_assoc, List.cons_append, overwritten_append hkey] at hk
          refine ⟨k, hk.imp_right ?_, hlost⟩
          rintro ⟨value, hvalue⟩
          exact ⟨value, (h.stores_rename hchild hlive _ k value).mp hvalue⟩
      · -- The key ends within the fragment.
        refine ⟨word ++ byte :: key, .inl rfl, fun n hn => ?_⟩
        have hlength := (hrun.renamed h hchild hreach hn).length_le
        rw [length_overwritten hlt] at hlength
        omega
  | @descend t t' current child last byte fragment key hchild hfragment _ ih =>
      obtain ⟨k, hk, hlost⟩ := ih h (hreach.trans (.single hchild hfragment))
        fun hspares => hnot (.descend hchild hfragment hspares)
      rw [List.append_assoc, List.cons_append] at hk
      exact ⟨k, hk, hlost⟩

end InsertRun

end RadixTree

end StopTrading.DataStructures
