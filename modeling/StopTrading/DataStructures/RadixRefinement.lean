import StopTrading.DataStructures.RadixInsert
import StopTrading.Library.FiniteMap
import StopTrading.Library.Transition

/-!
# The radix tree and the finite map

A run carries the finite map of the entries that were inserted last and not deleted or
cleared.  `Agrees` says that a call returns, and that the lookups and the length agree
afterwards.

Three things part the tree from the map: nodes that `clear` gave back are used again as they
were left; a key that is there is counted again; and an insertion renames what it should
split.  In the runs without them the tree agrees with the map (`agrees_of_keeps`), and as
long as no node is used again, only in those (`keeps_of_agrees`).

### Design decisions

An insertion answers `false` to a key without bytes or of more than 32, and if the pool is
exhausted.  A finite map refuses nothing, so `Valid` names both as what a caller has to see to.

`Agrees` compares all lookups after each call and not only that of the key of the call.  It is
the other keys that an insertion renames.

### What is load-bearing

A tree that was cleared is not a new tree: the pool keeps its nodes, but the count of those in
use is zero again, so the next insertion takes a root with the children it had.  `Inv` has two
cases for this reason, and `FreshPool` is the condition under which the second leads back to the
first.
-/

namespace StopTrading.DataStructures

open Transition MachineInt CompressedTrie FiniteMap RadixTree

/-- A call on the tree. -/
inductive RadixCall where
  | insert (key : List UInt8) (value : Int)
  | delete (key : List UInt8)
  | clear
  deriving DecidableEq

/-- What a call leaves behind; `none` if it does not return. -/
def RadixTree.call (t : RadixTree) : RadixCall → Option (RadixTree × Bool)
  | .insert key value => t.insert key value
  | .delete key => t.delete key
  | .clear => some (t.clear, true)

/-- The finite map. -/
abbrev KeyMap := AList fun _ : List UInt8 => Int

/-- What a call does to the finite map. -/
def KeyMap.after (ref : KeyMap) : RadixCall → KeyMap
  | .insert key value => AList.insert key value ref
  | .delete key => AList.erase key ref
  | .clear => ∅

/-- A tree and its finite map. -/
structure RadixRun where
  tree : RadixTree
  reference : KeyMap

namespace RadixRun

/-- A new tree. -/
def init : RadixRun := ⟨.new, ∅⟩

/-- One call.  A call that does not return leaves the tree as it is. -/
def step (r : RadixRun) (c : RadixCall) : Option RadixRun :=
  some ⟨((r.tree.call c).map Prod.fst).getD r.tree, r.reference.after c⟩

/-- **A call returns**, and the lookups and the length agree afterwards. -/
structure Agrees (r : RadixRun) (c : RadixCall) (r' : RadixRun) : Prop where
  /-- the call returns -/
  returns : (r.tree.call c).isSome = true
  /-- every lookup finds what the finite map has -/
  get : ∀ key, r'.tree.get key = some (r'.reference.lookup key)
  /-- and the length is the number of keys -/
  len : r'.tree.len = r'.reference.keys.length

/-- Keys have from one to 32 bytes, and the pool is not exhausted. -/
def Valid (_ : RadixRun) (c : RadixCall) (r' : RadixRun) : Prop :=
  (∀ key value, c = .insert key value → 0 < key.length ∧ key.length ≤ maxKeyLen) ∧
    r'.tree.allocated ≤ maxNodes

/-- A call is valid if its key has a length and the pool is not exhausted. -/
theorem valid_insert {r r' : RadixRun} {key : List UInt8} {value : Int}
    (hkey : 0 < key.length ∧ key.length ≤ maxKeyLen) (hroom : r'.tree.allocated ≤ maxNodes) :
    r.Valid (.insert key value) r' :=
  ⟨fun _ _ h => by cases h; exact hkey, hroom⟩

/-- **No node is used again**: the root is taken from a pool that is as new. -/
def FreshPool (r : RadixRun) (c : RadixCall) (_ : RadixRun) : Prop :=
  ∀ key value, c = .insert key value → r.tree.root = none → ∀ n, r.tree.nodes n = .new

/-- **A key is inserted that is not there and spares the tree.** -/
def Keeps (r : RadixRun) (c : RadixCall) (_ : RadixRun) : Prop :=
  ∀ key value, c = .insert key value →
    key ∉ r.reference ∧ ∀ root, r.tree.root = some root → r.tree.Spares root key

/-! ## Looking up -/

section Get

variable {t : RadixTree} {root : Fin maxNodes}

/-- `get` returns. -/
theorem get_returns (h : Shape t.trie Fin.val) (hroot : t.root = some root) (key : List UInt8) :
    ∃ found, t.get key = some found := by
  rw [RadixTree.get, hroot]
  split
  · exact ⟨none, rfl⟩
  · obtain ⟨o, ho⟩ := h.search_isSome (a := root) (le_refl key.length)
    simp only [ho]
    exact ⟨_, rfl⟩

/-- **`get` returns what the tree stores.** -/
theorem get_eq_some_iff (h : Shape t.trie Fin.val) (hroot : t.root = some root)
    {key : List UInt8} (hkey : key ≠ []) (value : Int) :
    t.get key = some (some value) ↔ t.Stores root key value := by
  have hlength : key.length ≠ 0 := fun h => hkey (List.length_eq_zero_iff.mp h)
  rw [RadixTree.get, if_neg hlength, hroot]
  constructor
  · intro hget
    obtain ⟨o, hsearch, ho⟩ := Option.map_eq_some_iff.mp hget
    cases o with
    | node n =>
        obtain ⟨hterminal, hvalue⟩ := Option.ite_none_right_eq_some.mp ho
        exact ⟨n, (h.search_eq_node_iff le_rfl).mp hsearch, hterminal, Option.some.inj hvalue⟩
    | missing => cases ho
    | mismatch => cases ho
  · rintro ⟨n, hreach, hterminal, rfl⟩
    simp only [hreach.search_eq le_rfl, Option.map_some, hterminal, if_true]

end Get

/-! ## The invariant -/

/-- **A tree with a root stores the finite map.** -/
structure Filled (t : RadixTree) (ref : KeyMap) (root : Fin maxNodes) : Prop where
  /-- there is a root -/
  root_eq : t.root = some root
  /-- below it the tree is sound -/
  sound : t.Sound root
  /-- and stores the entries of the finite map -/
  stores : ∀ key value, ref.lookup key = some value ↔ t.Stores root key value
  /-- none of them for the empty key -/
  nonempty : [] ∉ ref
  /-- and counts them -/
  count : t.count = ref.keys.length

/-- A tree without a root stores nothing. -/
structure Cleared (t : RadixTree) (ref : KeyMap) : Prop where
  /-- there is no root -/
  root_eq : t.root = none
  /-- and no entry -/
  reference : ref = ∅
  /-- which is what is counted -/
  count : t.count = 0
  /-- and no node is in use, whatever is in the nodes -/
  allocated : t.allocated = 0

/-- **The invariant.** -/
def Inv (r : RadixRun) : Prop :=
  Cleared r.tree r.reference ∨ ∃ root, Filled r.tree r.reference root

/-- A new tree has no root. -/
theorem inv_init : init.Inv := .inl ⟨rfl, rfl, rfl, rfl⟩

namespace Filled

variable {t : RadixTree} {ref : KeyMap} {root : Fin maxNodes}

/-- **The lookups agree.** -/
theorem get_eq (h : Filled t ref root) (key : List UInt8) : t.get key = some (ref.lookup key) := by
  by_cases hempty : key = []
  · subst hempty
    rw [AList.lookup_eq_none.mpr h.nonempty]
    rfl
  · obtain ⟨found, hfound⟩ := get_returns h.sound.shape h.root_eq key
    rw [hfound, Option.some.injEq]
    refine Option.ext fun value => ?_
    rw [h.stores, ← get_eq_some_iff h.sound.shape h.root_eq hempty, hfound, Option.some.injEq]

/-- There are no more keys than nodes. -/
theorem length_le (h : Filled t ref root) : ref.keys.length ≤ maxNodes := by
  have hnode : ∀ key : ref.keys.toFinset, ∃ n, Reach t.trie root key n := by
    rintro ⟨key, hkey⟩
    rw [List.mem_toFinset, ← AList.mem_keys, ← AList.lookup_isSome, Option.isSome_iff_exists]
      at hkey
    obtain ⟨value, hvalue⟩ := hkey
    obtain ⟨n, hreach, -⟩ := (h.stores key value).mp hvalue
    exact ⟨n, hreach⟩
  choose node hreach using hnode
  have hinj : Function.Injective node := fun key key' hsame => by
    have hreach' := hreach key'
    rw [← hsame] at hreach'
    exact Subtype.ext (h.sound.shape.word_unique (hreach key) hreach')
  calc ref.keys.length = Fintype.card ref.keys.toFinset := by
        rw [Fintype.card_coe, List.toFinset_card_of_nodup ref.keys_nodup]
    _ ≤ Fintype.card (Fin maxNodes) := Fintype.card_le_of_injective node hinj
    _ = maxNodes := Fintype.card_fin _

end Filled

/-! ## Inserting -/

/-- Write what a node stores. -/
def mark (t : RadixTree) (n : Fin maxNodes) (value : Int) (isTerminal : Bool) : RadixTree :=
  t.setNode n { t.nodes n with value := value, isTerminal := isTerminal }

section Mark

variable {t : RadixTree} {root n : Fin maxNodes} {value : Int} {isTerminal : Bool}

/-- What a node stores is not part of the trie, -/
theorem trie_mark : (mark t n value isTerminal).trie = t.trie := by
  unfold trie mark
  congr 1 <;> funext n' <;> rw [setNode_nodes] <;> split
  · next h => rw [h]
  · rfl
  · next h => rw [h]
  · rfl

/-- so that writing it keeps the tree sound. -/
theorem sound_mark (h : t.Sound root) (hn : n.val < t.allocated) :
    (mark t n value isTerminal).Sound root := by
  refine ⟨?_, fun n' hn' => ?_, h.root_lt, fun {a b c} hab => ?_, h.le_max⟩
  · rw [trie_mark]
    exact h.shape
  · rw [mark, setNode_nodes, if_neg]
    · exact h.spare n' hn'
    · rintro rfl
      exact absurd hn (not_lt_of_ge hn')
  · have hab' : (mark t n value isTerminal).trie.child a c = some b := hab
    rw [trie_mark] at hab'
    exact h.child_lt hab'

/-- What is stored for the other keys stays. -/
theorem stores_mark_of_ne (h : t.Sound root) {key : List UInt8} (hreach : Reach t.trie root key n)
    {k : List UInt8} (hk : k ≠ key) (v : Int) :
    (mark t n value isTerminal).Stores root k v ↔ t.Stores root k v := by
  refine exists_congr fun n' => ?_
  rw [trie_mark, mark, setNode_nodes]
  by_cases hn : n' = n
  · subst hn
    refine iff_of_false (fun hk' => ?_) fun hk' => ?_ <;>
      exact hk (h.shape.word_unique hk'.1 hreach)
  · rw [if_neg hn]

/-- What is stored for the key of the node. -/
theorem stores_mark_self {key : List UInt8} (hreach : Reach t.trie root key n) (v : Int) :
    (mark t n value isTerminal).Stores root key v ↔ isTerminal = true ∧ value = v := by
  have hnode : (mark t n value isTerminal).nodes n =
      { t.nodes n with value := value, isTerminal := isTerminal } := by
    rw [mark, setNode_nodes, if_pos rfl]
  constructor
  · rintro ⟨n', hreach', hterminal, hvalue⟩
    rw [trie_mark] at hreach'
    obtain rfl := hreach.node_unique hreach'
    rw [hnode] at hterminal hvalue
    exact ⟨hterminal, hvalue⟩
  · rintro ⟨hterminal, hvalue⟩
    refine ⟨n, ?_, ?_, ?_⟩
    · rw [trie_mark]
      exact hreach
    · rw [hnode]
      exact hterminal
    · rw [hnode]
      exact hvalue

end Mark

/-- The count has no part in what a tree stores. -/
theorem sound_count {t : RadixTree} {root : Fin maxNodes} (h : t.Sound root) (count : Nat) :
    Sound { t with count := count } root :=
  ⟨h.shape, h.spare, h.root_lt, h.child_lt, h.le_max⟩

/-- What an insertion leaves behind, when its loop has ended at a node. -/
def inserted (t : RadixTree) (n : Fin maxNodes) (value : Int) : RadixTree :=
  { mark t n value true with count := (t.count + 1) % 2 ^ 64 }

/-- An insertion marks a node, and counts. -/
theorem trie_inserted {t : RadixTree} {n : Fin maxNodes} {value : Int} :
    (inserted t n value).trie = t.trie :=
  trie_mark

section Insert

variable {r : RadixRun} {t t₁ t₂ : RadixTree} {ref : KeyMap} {root last : Fin maxNodes}
  {key : List UInt8}

/-- The first root of a pool that is as new. -/
theorem Cleared.ensureRoot (h : Cleared t ref) (hfresh : ∀ n, t.nodes n = .new) :
    ∃ t₁ root, t.ensureRoot = (t₁, some root) ∧ Filled t₁ ref root ∧ ∀ key, t₁.Spares root key := by
  refine ⟨⟨some ⟨0, by decide⟩, t.nodes, 1, t.count⟩, ⟨0, by decide⟩, ?_, ⟨rfl, ?_, ?_, ?_, ?_⟩, ?_⟩
  · rw [RadixTree.ensureRoot, h.root_eq]
    simp only [allocate, h.allocated]
    rfl
  · have hchild : ∀ a c, (t.nodes a).children c = none := fun a c => by rw [hfresh]; rfl
    exact ⟨⟨fun h' => absurd ((hchild _ _).symm.trans h') nofun,
      fun h' => absurd ((hchild _ _).symm.trans h') nofun,
      fun h' => absurd ((hchild _ _).symm.trans h') nofun⟩, fun n _ => hfresh n,
      Nat.zero_lt_one, fun h' => absurd ((hchild _ _).symm.trans h') nofun,
      Nat.succ_le_of_lt (Nat.zero_lt_succ _)⟩
  · rw [h.reference]
    refine fun key value => iff_of_false nofun ?_
    rintro ⟨n, -, hterminal, -⟩
    change (t.nodes n).isTerminal = true at hterminal
    rw [hfresh] at hterminal
    cases hterminal
  · rw [h.reference]
    exact AList.notMem_empty []
  · rw [h.reference]
    exact h.count
  · rintro (_ | ⟨byte, key⟩)
    · exact .done
    · refine .vacant ?_
      show (t.nodes _).children byte = none
      rw [hfresh]
      rfl

/-- The root at which the loop of an insertion starts. -/
theorem Inv.ensureRoot (inv : r.Inv) (hfresh : r.tree.root = none → ∀ n, r.tree.nodes n = .new) :
    ∃ t₁ root, r.tree.ensureRoot = (t₁, some root) ∧ Filled t₁ r.reference root ∧
      ∀ key, (∀ root', r.tree.root = some root' → r.tree.Spares root' key) ↔
        t₁.Spares root key := by
  rcases inv with h | ⟨root, h⟩
  · obtain ⟨t₁, root, hroot, hfilled, hspares⟩ := h.ensureRoot (hfresh h.root_eq)
    refine ⟨t₁, root, hroot, hfilled, fun key => iff_of_true (fun root' hroot' => ?_) (hspares key)⟩
    rw [h.root_eq] at hroot'
    cases hroot'
  · refine ⟨r.tree, root, ?_, h, fun key => ⟨fun hspares => hspares root h.root_eq, ?_⟩⟩
    · rw [RadixTree.ensureRoot, h.root_eq]
    · rintro hspares root' hroot'
      cases h.root_eq.symm.trans hroot'
      exact hspares

/-- **An insertion marks the node at which the loop ends**, if the pool is not exhausted. -/
theorem Filled.insert_eq (h : Filled t₁ ref root) (hroot : t.ensureRoot = (t₁, some root))
    (hkey : 0 < key.length ∧ key.length ≤ maxKeyLen) {value : Int} {t' : RadixTree} {b : Bool}
    (hinsert : t.insert key value = some (t', b)) (hroom : t'.allocated ≤ maxNodes) :
    ∃ t₂ last, InsertRun t₁ root key t₂ last ∧
      t' = inserted t₂ last value := by
  have hlength : ¬ (key.length = 0 ∨ maxKeyLen < key.length) := by omega
  rw [RadixTree.insert, if_neg hlength, hroot] at hinsert
  obtain ⟨t₂, last, hloop, hrun⟩ | ⟨t₂, hloop, hfull⟩ :=
    h.sound.insertLoop_cases h.sound.root_lt (le_refl key.length)
  · simp only [hloop, Option.map_some, Option.some.injEq, Prod.mk.injEq] at hinsert
    exact ⟨t₂, last, hrun, hinsert.1.symm⟩
  · simp only [hloop, Option.map_some, Option.some.injEq, Prod.mk.injEq] at hinsert
    rw [← hinsert.1] at hroom
    omega

/-- **Inserting a key that is not there and spares the tree.** -/
theorem Filled.insert (h : Filled t₁ ref root) (hrun : InsertRun t₁ root key t₂ last)
    (hkey : key ≠ []) (habsent : key ∉ ref) (hspares : t₁.Spares root key) (value : Int) :
    Filled (inserted t₂ last value) (AList.insert key value ref) root := by
  obtain ⟨hreach, hstores⟩ := hrun.of_spares h.sound (.refl root) hspares
  rw [List.nil_append] at hreach
  have hsound := hrun.sound h.sound h.sound.root_lt
  have hlast := hsound.reach_lt hsound.root_lt hreach
  have hlength := h.length_le
  refine ⟨hrun.root_count.1.trans h.root_eq, sound_count (sound_mark hsound hlast) _,
    fun k v => ?_, ?_, ?_⟩
  · show _ ↔ (mark t₂ last value true).Stores root k v
    rw [lookup_insert_iff]
    by_cases hk : k = key
    · subst hk
      rw [stores_mark_self hreach]
      simp [eq_comm]
    · rw [stores_mark_of_ne hsound hreach hk, hstores, h.stores]
      simp [hk]
  · rw [AList.mem_insert, not_or]
    exact ⟨fun hnil => hkey hnil.symm, h.nonempty⟩
  · show (t₂.count + 1) % 2 ^ 64 = _
    rw [length_insert_new habsent, hrun.root_count.2, h.count]
    exact Nat.mod_eq_of_lt (lt_of_le_of_lt (Nat.succ_le_succ hlength) (by decide))

end Insert

/-! ## Deleting -/

/-- The loop of `delete` goes where a word leads. -/
theorem deleteLoop_eq {t : RadixTree} {a b : Fin maxNodes} {word : List UInt8}
    (hreach : Reach t.trie a word b) {rounds : Nat} (hrounds : word.length ≤ rounds) :
    t.deleteLoop rounds a word = some (some b) := by
  induction hreach generalizing rounds with
  | refl => cases rounds <;> rfl
  | @step a b d byte fragment word hchild hfragment _ ih =>
      have hchild' : (t.nodes a).children byte = some b := hchild
      have hfragment' : (t.nodes b).fragment = byte :: fragment := hfragment
      rw [List.length_append, List.length_cons] at hrounds
      obtain ⟨rounds, rfl⟩ : ∃ n, rounds = n + 1 := ⟨rounds - 1, by omega⟩
      rw [List.cons_append, deleteLoop]
      simp only [hchild', hfragment']
      rw [← List.cons_append, List.length_append, Nat.min_eq_left (Nat.le_add_right ..),
        List.drop_left]
      exact ih (by omega)

/-- **Deleting.** -/
theorem Filled.delete {t : RadixTree} {ref : KeyMap} {root : Fin maxNodes}
    (h : Filled t ref root) (key : List UInt8) :
    ∃ t' b, t.delete key = some (t', b) ∧ Filled t' (AList.erase key ref) root := by
  rw [RadixTree.delete, h.get_eq]
  cases hlookup : ref.lookup key with
  | none =>
      rw [erase_of_not_mem (AList.lookup_eq_none.mp hlookup)]
      exact ⟨t, false, rfl, h⟩
  | some value =>
      obtain ⟨n, hreach, -⟩ := (h.stores key value).mp hlookup
      have hlt := h.sound.reach_lt h.sound.root_lt hreach
      have herase := length_erase (mem_of_lookup hlookup)
      have hlength := h.length_le
      refine ⟨{ mark t n 0 false with count := u64 ((t.count : Int) - 1) }, true, ?_, h.root_eq,
        sound_count (sound_mark h.sound hlt) _, fun k v => ?_, ?_, ?_⟩
      · simp only [Option.bind_some, h.root_eq, deleteLoop_eq hreach le_rfl, Option.map_some]
        rfl
      · show _ ↔ (mark t n 0 false).Stores root k v
        rw [lookup_erase_iff]
        by_cases hk : k = key
        · subst hk
          rw [stores_mark_self hreach]
          simp
        · rw [stores_mark_of_ne h.sound hreach hk, h.stores]
          simp [hk]
      · rw [AList.mem_erase, not_and]
        exact fun _ => h.nonempty
      · show u64 ((t.count : Int) - 1) = _
        have hcount : (t.count : Int) - 1 = ((AList.erase key ref).keys.length : Int) := by
          rw [h.count, ← herase]
          omega
        have hfits : (AList.erase key ref).keys.length < 2 ^ 64 := by
          have : maxNodes < 2 ^ 64 := by decide
          omega
        rw [hcount, u64_natCast hfits]

/-! ## Steps -/

section Steps

variable {r r' : RadixRun} {c : RadixCall}

/-- What the invariant says afterwards is that the lookups agree. -/
theorem agrees_of_inv (hreturns : (r.tree.call c).isSome = true) (inv' : r'.Inv) :
    r.Agrees c r' := by
  rcases inv' with h | ⟨root, h⟩
  · refine ⟨hreturns, fun key => ?_, ?_⟩
    · rw [RadixTree.get, h.root_eq, h.reference, AList.lookup_empty]
      split <;> rfl
    · rw [RadixTree.len, h.count, h.reference]
      rfl
  · exact ⟨hreturns, h.get_eq, h.count⟩

/-- A deletion keeps the invariant. -/
theorem Inv.delete (inv : r.Inv) (key : List UInt8) :
    ∃ t b, r.tree.delete key = some (t, b) ∧ Inv ⟨t, AList.erase key r.reference⟩ := by
  rcases inv with h | ⟨root, h⟩
  · refine ⟨r.tree, false, ?_, .inl ⟨h.root_eq, ?_, h.count, h.allocated⟩⟩
    · rw [RadixTree.delete, RadixTree.get, h.root_eq]
      split <;> rfl
    · rw [h.reference]
      exact erase_of_not_mem (AList.notMem_empty key)
  · obtain ⟨t, b, hdelete, hfilled⟩ := h.delete key
    exact ⟨t, b, hdelete, .inr ⟨root, hfilled⟩⟩

/-- An insertion into a sound tree returns. -/
theorem Inv.insert_returns (inv : r.Inv)
    (hfresh : r.tree.root = none → ∀ n, r.tree.nodes n = .new) (key : List UInt8) (value : Int) :
    ∃ t b, r.tree.insert key value = some (t, b) := by
  obtain ⟨t₁, root, hroot, h, -⟩ := inv.ensureRoot hfresh
  rw [RadixTree.insert, hroot]
  split
  · exact ⟨_, _, rfl⟩
  · obtain ⟨t₂, last, hloop, -⟩ | ⟨t₂, hloop, -⟩ :=
      h.sound.insertLoop_cases h.sound.root_lt (le_refl key.length)
    · simp only [hloop]
      exact ⟨_, _, rfl⟩
    · simp only [hloop]
      exact ⟨_, _, rfl⟩

/-- **What an insertion does.** -/
theorem Inv.insert_run (inv : r.Inv) {key : List UInt8} {value : Int}
    (hstep : r.step (.insert key value) = some r') (hvalid : r.Valid (.insert key value) r')
    (hfresh : r.FreshPool (.insert key value) r') :
    (r.tree.call (.insert key value)).isSome = true ∧ key ≠ [] ∧
      ∃ t₁ root t₂ last, Filled t₁ r.reference root ∧
        ((∀ root', r.tree.root = some root' → r.tree.Spares root' key) ↔ t₁.Spares root key) ∧
        InsertRun t₁ root key t₂ last ∧
        r' = ⟨inserted t₂ last value, AList.insert key value r.reference⟩ := by
  cases Option.some.inj hstep
  obtain ⟨t', b, hinsert⟩ := inv.insert_returns (hfresh key value rfl) key value
  have hcall : r.tree.call (.insert key value) = some (t', b) := hinsert
  simp only [hcall, Option.map_some, Option.getD_some] at hvalid ⊢
  obtain ⟨t₁, root, hroot, h, hspares⟩ := inv.ensureRoot (hfresh key value rfl)
  obtain ⟨hkey, hroom⟩ := hvalid
  obtain ⟨t₂, last, hrun, rfl⟩ := h.insert_eq hroot (hkey key value rfl) hinsert hroom
  exact ⟨rfl, List.ne_nil_of_length_pos (hkey key value rfl).1, t₁, root, t₂, last, h,
    hspares key, hrun, rfl⟩

/-- A step that keeps the tree keeps the invariant and agrees. -/
theorem Inv.step (inv : r.Inv) (hstep : r.step c = some r') (hvalid : r.Valid c r')
    (hfresh : r.FreshPool c r') (hkeeps : r.Keeps c r') : r'.Inv ∧ r.Agrees c r' := by
  cases c with
  | insert key value =>
      obtain ⟨hreturns, hne, t₁, root, t₂, last, h, hspares, hrun, rfl⟩ :=
        inv.insert_run hstep hvalid hfresh
      obtain ⟨habsent, hspared⟩ := hkeeps key value rfl
      have inv' : Inv ⟨_, AList.insert key value r.reference⟩ :=
        .inr ⟨root, h.insert hrun hne habsent (hspares.mp hspared) value⟩
      exact ⟨inv', agrees_of_inv hreturns inv'⟩
  | delete key =>
      cases Option.some.inj hstep
      obtain ⟨t', b, hdelete, inv'⟩ := inv.delete key
      have hcall : r.tree.call (.delete key) = some (t', b) := hdelete
      simp only [hcall, Option.map_some, Option.getD_some]
      exact ⟨inv', agrees_of_inv (by rw [hcall]; rfl) inv'⟩
  | clear =>
      cases Option.some.inj hstep
      have inv' : Inv ⟨r.tree.clear, ∅⟩ := .inl ⟨rfl, rfl, rfl, rfl⟩
      exact ⟨inv', agrees_of_inv rfl inv'⟩

/-- **A step that agrees keeps the tree**, if no node is used again. -/
theorem Inv.keeps_of_agrees (inv : r.Inv) (hstep : r.step c = some r') (hvalid : r.Valid c r')
    (hfresh : r.FreshPool c r') (hagrees : r.Agrees c r') : r.Keeps c r' := by
  rintro key value rfl
  obtain ⟨-, hne, t₁, root, t₂, last, h, hspares, hrun, rfl⟩ :=
    inv.insert_run hstep hvalid hfresh
  refine ⟨fun hpresent => ?_, hspares.mpr ?_⟩
  · -- A key that is there is counted again.
    have hlen : (t₂.count + 1) % 2 ^ 64 = (AList.insert key value r.reference).keys.length :=
      hagrees.len
    have hlength := h.length_le
    have hsmall : maxNodes + 1 < 2 ^ 64 := by decide
    rw [length_insert_old hpresent, hrun.root_count.2, h.count, Nat.mod_eq_of_lt (by omega)] at hlen
    omega
  · by_contra hnot
    obtain ⟨k, hk, hlost⟩ := hrun.of_not_spares h.sound (.refl root) hnot
    rw [List.nil_append] at hk
    have hk' : k ≠ [] ∧ ∃ v, (AList.insert key value r.reference).lookup k = some v := by
      rcases hk with rfl | ⟨v, hv⟩
      · exact ⟨hne, value, AList.lookup_insert ..⟩
      · have hlookup := (h.stores k v).mpr hv
        refine ⟨fun hnil => h.nonempty (hnil ▸ mem_of_lookup hlookup), ?_⟩
        rw [← Option.isSome_iff_exists, AList.lookup_isSome, AList.mem_insert]
        exact .inr (mem_of_lookup hlookup)
    obtain ⟨hnil, v, hv⟩ := hk'
    have hget : (inserted t₂ last value).get k =
        some ((AList.insert key value r.reference).lookup k) := hagrees.get k
    have hshape : Shape (inserted t₂ last value).trie Fin.val := by
      rw [trie_inserted]
      exact (hrun.sound h.sound h.sound.root_lt).shape
    have hroot : (inserted t₂ last value).root = some root := hrun.root_count.1.trans h.root_eq
    rw [hv, get_eq_some_iff hshape hroot hnil] at hget
    obtain ⟨n, hreach, -⟩ := hget
    exact hlost n (trie_inserted ▸ hreach)

end Steps

/-! ## Runs -/

/-- As long as no node is used again, the tree agrees with the finite map exactly in the runs
that keep the tree. -/
theorem keeps_iff_agrees {calls : List RadixCall} (hvalid : AllSteps step Valid init calls)
    (hfresh : AllSteps step FreshPool init calls) :
    AllSteps step Keeps init calls ↔ AllSteps step Agrees init calls :=
  allSteps_iff_of_invariant
    (fun _ _ _ inv hstep hpromise hkeeps => inv.step hstep hpromise.1 hpromise.2 hkeeps)
    (fun _ _ _ inv hstep hpromise hagrees =>
      inv.keeps_of_agrees hstep hpromise.1 hpromise.2 hagrees)
    calls init inv_init (allSteps_and.mpr ⟨hvalid, hfresh⟩)

/-- **The tree agrees with the finite map** in the runs that keep the tree and use no node
again; as long as no node is used again, only in the runs that keep the tree. -/
theorem agrees_of_keeps (calls : List RadixCall) (hvalid : AllSteps step Valid init calls) :
    (AllSteps step (fun r c r' => r.FreshPool c r' ∧ r.Keeps c r') init calls →
        AllSteps step Agrees init calls) ∧
      (AllSteps step FreshPool init calls → AllSteps step Agrees init calls →
        AllSteps step Keeps init calls) := by
  refine ⟨fun hguard => ?_, fun hfresh => (keeps_iff_agrees hvalid hfresh).mpr⟩
  obtain ⟨hfresh, hkeeps⟩ := allSteps_and.mp hguard
  exact (keeps_iff_agrees hvalid hfresh).mp hkeeps

/-- A key is inserted, then one behind it, and the first is deleted. -/
theorem agrees_insertedAndDeleted :
    AllSteps step Agrees init
      [.insert [66, 84, 67] 100, .insert [66, 84, 67, 85] 200, .delete [66, 84, 67]] := by
  refine (agrees_of_keeps _ ?_).1 ?_
  · exact ⟨valid_insert (by decide) (by decide), valid_insert (by decide) (by decide),
      ⟨nofun, by decide⟩, trivial⟩
  · refine ⟨⟨?_, ?_⟩, ⟨?_, ?_⟩, ⟨nofun, nofun⟩, trivial⟩
    · exact fun _ _ _ _ _ => rfl
    · rintro key value ⟨⟩
      exact ⟨by decide, nofun⟩
    · rintro key value ⟨⟩ hroot
      cases hroot
    · rintro key value ⟨⟩
      refine ⟨by decide, fun root hroot => ?_⟩
      cases hroot
      refine @Spares.descend _ _ ⟨1, by decide⟩ 66 [84, 67] [85] ?_ ?_ (.vacant ?_)
      · rfl
      · rfl
      · rfl

/-- **A key that ends within a fragment**: neither it nor the key before it is found. -/
theorem not_forall_keysAgree :
    ¬ ∀ calls : List RadixCall,
        AllSteps step Valid init calls → AllSteps step Agrees init calls := by
  intro hall
  obtain ⟨-, ⟨-, hget, -⟩, -⟩ := hall [.insert [66, 84, 67] 100, .insert [66] 200]
    ⟨valid_insert (by decide) (by decide), valid_insert (by decide) (by decide), trivial⟩
  exact absurd (hget [66]) (by decide)

end RadixRun

end StopTrading.DataStructures
