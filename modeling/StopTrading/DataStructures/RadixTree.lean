import StopTrading.Library.CompressedTrie
import StopTrading.Library.MachineInt

/-!
# The radix tree

`RadixTree` takes its nodes from a pool.  The nodes are those of a compressed trie; a child
has a fragment of up to eight bytes.

`insert` goes down as long as there are children.  Where the key leaves the fragment of a
child, the fragment is not split: its next byte is overwritten with that of the key and the
rest of it is cut off, so that whatever is stored there or below is renamed.  `clear` gives
the nodes back to the pool as they are.

The loops take the number of rounds they may run; a fragment is never empty, so that a round
takes at least one byte of the key.

### Design decisions

A fragment is a list of at most eight bytes, where the source has an array and a length, and a
child is found by its first byte, where the source has a table of 256 pointers.  Nodes are
numbers into the pool, as in the source, since this is what makes it possible that a node is used
again.

The trie of the nodes (`trie`) forgets what is stored.  It is what `CompressedTrie` of the
library is about: which word leads to which node.
-/

namespace StopTrading.DataStructures

open MachineInt CompressedTrie

/-- `MAX_NODES`. -/
def maxNodes : Nat := 8192

/-- `MAX_KEY_LEN`. -/
def maxKeyLen : Nat := 32

/-- `RadixNode`.  The fragment is `key_fragment[..fragment_len]`. -/
structure RadixNode where
  children : UInt8 → Option (Fin maxNodes)
  value : Int
  isTerminal : Bool
  fragment : List UInt8

/-- `RadixNode::new`. -/
def RadixNode.new : RadixNode := ⟨fun _ => none, 0, false, []⟩

/-- `RadixTree`, with its pool. -/
structure RadixTree where
  root : Option (Fin maxNodes)
  nodes : Fin maxNodes → RadixNode
  allocated : Nat
  count : Nat

namespace RadixTree

/-- `new`. -/
def new : RadixTree := ⟨none, fun _ => .new, 0, 0⟩

/-- The trie of the nodes. -/
def trie (t : RadixTree) : Trie (Fin maxNodes) UInt8 :=
  ⟨fun n => (t.nodes n).children, fun n => (t.nodes n).fragment⟩

/-- `allocate`: the node is as it was left. -/
def allocate (t : RadixTree) : RadixTree × Option (Fin maxNodes) :=
  ({ t with allocated := (t.allocated + 1) % 2 ^ 64 },
    if h : t.allocated < maxNodes then some ⟨t.allocated, h⟩ else none)

/-- Write a node. -/
def setNode (t : RadixTree) (n : Fin maxNodes) (node : RadixNode) : RadixTree :=
  { t with nodes := Function.update t.nodes n node }

/-- Write the fragment of a node. -/
def setFragment (t : RadixTree) (n : Fin maxNodes) (fragment : List UInt8) : RadixTree :=
  t.setNode n { t.nodes n with fragment := fragment }

/-- `set_child`. -/
def setChild (t : RadixTree) (n : Fin maxNodes) (byte : UInt8) (child : Fin maxNodes) :
    RadixTree :=
  t.setNode n
    { t.nodes n with children := Function.update (t.nodes n).children byte (some child) }

/-- The loop of `insert`, with the rest of the key: the node of the key, if the pool is not
exhausted. -/
def insertLoop :
    Nat → RadixTree → Fin maxNodes → List UInt8 → Option (RadixTree × Option (Fin maxNodes))
  | _, t, current, [] => some (t, some current)
  | 0, _, _, _ :: _ => none
  | rounds + 1, t, current, byte :: key =>
      match (t.nodes current).children byte with
      | none =>
          match t.allocate with
          | (t, none) => some (t, none)
          | (t, some node) =>
              insertLoop rounds
                ((t.setFragment node ((byte :: key).take 8)).setChild current byte node) node
                ((byte :: key).drop 8)
      | some child =>
          let fragment := (t.nodes child).fragment
          let matched := matchLen fragment (byte :: key)
          let rest := (byte :: key).drop matched
          if matched < fragment.length then
            -- The fragment is cut off behind the byte that is overwritten.
            insertLoop rounds (t.setFragment child (fragment.take matched ++ [rest.headD 0])) child
              (rest.drop 1)
          else insertLoop rounds t child rest

/-- The root, which is allocated if there is none. -/
def ensureRoot (t : RadixTree) : RadixTree × Option (Fin maxNodes) :=
  match t.root with
  | some root => (t, some root)
  | none =>
      match t.allocate with
      | (t, none) => (t, none)
      | (t, some root) => ({ t with root := some root }, some root)

/-- `insert`. -/
def insert (t : RadixTree) (key : List UInt8) (value : Int) : Option (RadixTree × Bool) :=
  if key.length = 0 ∨ maxKeyLen < key.length then some (t, false)
  else
    match t.ensureRoot with
    | (t, none) => some (t, false)
    | (t, some root) =>
        (insertLoop key.length t root key).map fun
          | (t, none) => (t, false)
          | (t, some current) =>
              ({ t.setNode current { t.nodes current with value := value, isTerminal := true } with
                  count := (t.count + 1) % 2 ^ 64 }, true)

/-- `get`. -/
def get (t : RadixTree) (key : List UInt8) : Option (Option Int) :=
  if key.length = 0 then some none
  else
    match t.root with
    | none => some none
    | some root =>
        (search t.trie key.length root key).map fun
          | .node n => if (t.nodes n).isTerminal then some (t.nodes n).value else none
          | .missing | .mismatch => none

/-- The loop of `delete`, which does not compare the fragments. -/
def deleteLoop (t : RadixTree) :
    Nat → Fin maxNodes → List UInt8 → Option (Option (Fin maxNodes))
  | _, current, [] => some (some current)
  | 0, _, _ :: _ => none
  | rounds + 1, current, byte :: key =>
      match (t.nodes current).children byte with
      | none => some none
      | some child =>
          deleteLoop t rounds child
            ((byte :: key).drop (min (t.nodes child).fragment.length (byte :: key).length))

/-- `delete`. -/
def delete (t : RadixTree) (key : List UInt8) : Option (RadixTree × Bool) :=
  (t.get key).bind fun
    | none => some (t, false)
    | some _ =>
        match t.root with
        | none => some (t, false)
        | some root =>
            (t.deleteLoop key.length root key).map fun
              | none => (t, false)
              | some current =>
                  ({ t.setNode current
                        { t.nodes current with value := 0, isTerminal := false } with
                      count := u64 ((t.count : Int) - 1) }, true)

/-- `len`. -/
def len (t : RadixTree) : Nat := t.count

/-- `clear`. -/
def clear (t : RadixTree) : RadixTree := ⟨none, t.nodes, 0, 0⟩

/-! ## The trie after a write -/

/-- Writing a node writes no other one, -/
theorem setNode_nodes (t : RadixTree) (n n' : Fin maxNodes) (node : RadixNode) :
    (t.setNode n node).nodes n' = if n' = n then node else t.nodes n' :=
  Function.update_apply ..

/-- and a fragment only that. -/
theorem setFragment_nodes (t : RadixTree) (n n' : Fin maxNodes) (fragment : List UInt8) :
    (t.setFragment n fragment).nodes n' =
      if n' = n then { t.nodes n with fragment := fragment } else t.nodes n' :=
  setNode_nodes ..

/-- A new fragment renames a node of the trie. -/
theorem trie_setFragment (t : RadixTree) (n : Fin maxNodes) (fragment : List UInt8) :
    (t.setFragment n fragment).trie = t.trie.rename n fragment := by
  have hnodes := fun n' => t.setFragment_nodes n n' fragment
  unfold trie Trie.rename
  congr 1
  · funext n'
    rw [hnodes]
    split
    · next h => rw [h]
    · rfl
  · funext n'
    rw [hnodes, Function.update_apply]
    split <;> rfl

/-- A new child is a leaf of the trie. -/
theorem trie_addLeaf (t : RadixTree) {n n' : Fin maxNodes} (hne : n ≠ n') (byte : UInt8)
    (fragment : List UInt8) :
    ((t.setFragment n' (byte :: fragment)).setChild n byte n').trie =
      t.trie.addLeaf n byte n' fragment := by
  have hnodes := fun x => t.setFragment_nodes n' x (byte :: fragment)
  unfold trie Trie.addLeaf setChild
  congr 1
  · funext x
    rw [setNode_nodes, hnodes n, if_neg hne, Function.update_apply]
    split
    · next h => rfl
    · rw [hnodes]
      split
      · next h => rw [h]
      · rfl
  · funext x
    rw [setNode_nodes, hnodes n, if_neg hne, Function.update_apply]
    by_cases hx : x = n'
    · rw [if_pos hx, if_neg (by rintro rfl; exact hne hx), hnodes, if_pos hx]
    · rw [if_neg hx]
      split
      · next h => rw [h]
      · rw [hnodes, if_neg hx]

end RadixTree

end StopTrading.DataStructures
