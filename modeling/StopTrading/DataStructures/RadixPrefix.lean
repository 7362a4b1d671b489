import StopTrading.DataStructures.RadixRefinement
import StopTrading.Library.LongestPrefix

/-!
# The longest prefix in the radix tree

`longest_prefix_match` goes down like `get`; it stops where `get` gives up, and remembers the
last terminal node it has passed.

No child ever has an empty fragment (`Inv`), whatever insertions have overwritten.  So every
call returns, and the walk returns the longest of the prefixes that `get` finds
(`RadixTree.prefixLoop_eq`, `longestPrefixMatch_of_calls`).

### What is load-bearing

This is the one operation of the tree that is right in every state, also in those in which
insertions have renamed what they should have split.  It is compared with `get` on the *same*
tree, and both walk down the same nodes.  So the shape of the tree does not matter, and `Inv` can
be as weak as it is: no child with an empty fragment, which is what makes the walks end.

`LongestPrefix` of the library is about any walk that goes down along a key and finds something
at some of its stops; here the stops are nodes.
-/

namespace StopTrading.DataStructures

open MachineInt CompressedTrie LongestPrefix Transition

namespace RadixTree

/-- The loop of `longest_prefix_match`, with the rest of the key. -/
def prefixLoop (t : RadixTree) :
    Nat → Fin maxNodes → List UInt8 → Nat → Option (Nat × Int) → Option (Option (Nat × Int))
  | _, _, [], _, lastMatch => some lastMatch
  | 0, _, _ :: _, _, _ => none
  | rounds + 1, current, byte :: key, keyIdx, lastMatch =>
      match (t.nodes current).children byte with
      | none => some lastMatch
      | some child =>
          let fragment := (t.nodes child).fragment
          let matched := matchLen fragment (byte :: key)
          if matched < fragment.length then some lastMatch
          else
            let keyIdx := keyIdx + matched
            let lastMatch :=
              if (t.nodes child).isTerminal then some (keyIdx, (t.nodes child).value)
              else lastMatch
            prefixLoop t rounds child ((byte :: key).drop matched) keyIdx lastMatch

/-- `longest_prefix_match`. -/
def longestPrefixMatch (t : RadixTree) (key : List UInt8) : Option (Option (Nat × Int)) :=
  if key.length = 0 then some none
  else
    match t.root with
    | none => some none
    | some root => t.prefixLoop key.length root key 0 none

/-- What a node holds. -/
def held (t : RadixTree) (n : Fin maxNodes) : Option Int :=
  if (t.nodes n).isTerminal then some (t.nodes n).value else none

/-! ## The invariant -/

/-- **No child has an empty fragment.** -/
def Inv (t : RadixTree) : Prop :=
  Solid t.trie

/-- A new tree has no children. -/
theorem inv_new : new.Inv :=
  fun _ _ _ h => absurd h nofun

/-- A whole fragment is at least one byte. -/
theorem Inv.fragment_pos {t : RadixTree} (h : t.Inv) {a b : Fin maxNodes} {c : UInt8}
    (hchild : (t.nodes a).children c = some b) : 0 < (t.nodes b).fragment.length :=
  List.length_pos_iff.mpr (h hchild)

section Writes

variable {t : RadixTree}

/-- A node with the children it had and a fragment that is not empty. -/
theorem Inv.setNode (h : t.Inv) {n : Fin maxNodes} {node : RadixNode}
    (hchildren : node.children = (t.nodes n).children)
    (hfragment : node.fragment = (t.nodes n).fragment ∨ node.fragment ≠ []) :
    (t.setNode n node).Inv := by
  intro a c b hchild
  have hchild' : (t.nodes a).children c = some b := by
    have hat : ((t.setNode n node).nodes a).children c = some b := hchild
    rw [setNode_nodes] at hat
    split at hat
    · next heq => rwa [heq, ← hchildren]
    · exact hat
  show ((t.setNode n node).nodes b).fragment ≠ []
  rw [setNode_nodes]
  split
  · next heq =>
    rcases hfragment with hsame | hne
    · rw [hsame, ← heq]
      exact h hchild'
    · exact hne
  · exact h hchild'

/-- Writing a fragment that is not empty, -/
theorem Inv.setFragment (h : t.Inv) (n : Fin maxNodes) {fragment : List UInt8}
    (hne : fragment ≠ []) : (t.setFragment n fragment).Inv := by
  refine Inv.setNode h ?_ (.inr ?_)
  · rfl
  · exact hne

/-- A write of what a node holds. -/
theorem Inv.setValue (h : t.Inv) (n : Fin maxNodes) (value : Int) (isTerminal : Bool) :
    (t.setNode n { t.nodes n with value := value, isTerminal := isTerminal }).Inv := by
  refine Inv.setNode h ?_ (.inl ?_)
  · rfl
  · rfl

/-- a child that has one, -/
theorem Inv.setChild (h : t.Inv) (n : Fin maxNodes) (byte : UInt8) {child : Fin maxNodes}
    (hne : (t.nodes child).fragment ≠ []) : (t.setChild n byte child).Inv := by
  have hfragment : ∀ b, ((t.setChild n byte child).nodes b).fragment = (t.nodes b).fragment :=
    fun b => by
      rw [RadixTree.setChild, setNode_nodes]
      split
      · next heq => rw [heq]
      · rfl
  intro a c b hchild
  show ((t.setChild n byte child).nodes b).fragment ≠ []
  rw [hfragment]
  have hat : ((t.setChild n byte child).nodes a).children c = some b := hchild
  rw [RadixTree.setChild, setNode_nodes] at hat
  split at hat
  · next heq =>
    have hat' : Function.update (t.nodes n).children byte (some child) c = some b := hat
    rw [Function.update_apply] at hat'
    split at hat'
    · cases hat'
      exact hne
    · exact h hat'
  · exact h hat

/-- or nothing. -/
theorem Inv.allocate (h : t.Inv) : t.allocate.1.Inv := h

end Writes

/-! ## Inserting and deleting -/

/-- **The loop of an insertion returns**, and no child gets an empty fragment. -/
theorem Inv.insertLoop {t : RadixTree} (h : t.Inv) {rounds : Nat} (current : Fin maxNodes)
    {key : List UInt8} (hrounds : key.length ≤ rounds) :
    ∃ t' node, t.insertLoop rounds current key = some (t', node) ∧ t'.Inv := by
  induction rounds generalizing t current key with
  | zero =>
      rw [List.length_eq_zero_iff.mp (Nat.le_zero.mp hrounds)]
      exact ⟨t, some current, rfl, h⟩
  | succ rounds ih =>
      cases key with
      | nil => exact ⟨t, some current, rfl, h⟩
      | cons byte key =>
          rw [List.length_cons] at hrounds
          rw [RadixTree.insertLoop]
          cases hchild : (t.nodes current).children byte with
          | none =>
              have h₁ := h.allocate
              rcases hnode : t.allocate with ⟨t₁, _ | node⟩ <;> rw [hnode] at h₁
              · exact ⟨t₁, none, rfl, h₁⟩
              · have hfragment : (byte :: key).take 8 ≠ [] := List.cons_ne_nil byte _
                refine ih ?_ _ ?_
                · refine (h₁.setFragment node ?_).setChild _ _ ?_
                  · exact hfragment
                  · rw [setFragment_nodes, if_pos rfl]
                    exact hfragment
                · rw [List.length_drop, List.length_cons]
                  omega
          | some child =>
              dsimp only
              split
              · refine ih (h.setFragment _ ?_) _ ?_
                · exact List.append_ne_nil_of_right_ne_nil _ (List.cons_ne_nil _ [])
                · rw [List.length_drop, List.length_drop, List.length_cons]
                  omega
              · next hwhole =>
                refine ih h _ ?_
                have hpos := h.fragment_pos hchild
                rw [List.length_drop, List.length_cons]
                omega

/-- A root may have an empty fragment, as it is nobody's child. -/
theorem Inv.ensureRoot {t : RadixTree} (h : t.Inv) : t.ensureRoot.1.Inv := by
  rw [RadixTree.ensureRoot]
  cases t.root with
  | some root => exact h
  | none =>
      have h₁ := h.allocate
      rcases hnode : t.allocate with ⟨t₁, _ | root⟩ <;> rw [hnode] at h₁
      · exact h₁
      · exact h₁

/-- **An insertion returns.** -/
theorem Inv.insert {t : RadixTree} (h : t.Inv) (key : List UInt8) (value : Int) :
    ∃ t' b, t.insert key value = some (t', b) ∧ t'.Inv := by
  rw [RadixTree.insert]
  split
  · exact ⟨t, false, rfl, h⟩
  · have hroot := h.ensureRoot
    rcases hensure : t.ensureRoot with ⟨t₁, _ | root⟩ <;> rw [hensure] at hroot
    · exact ⟨t₁, false, rfl, hroot⟩
    · obtain ⟨t₂, node, hloop, h₂⟩ := Inv.insertLoop hroot root (le_refl key.length)
      simp only [hloop, Option.map_some]
      cases node with
      | none => exact ⟨t₂, false, rfl, h₂⟩
      | some current => exact ⟨_, true, rfl, h₂.setValue current value true⟩

/-- The loop of a deletion returns. -/
theorem Inv.deleteLoop {t : RadixTree} (h : t.Inv) {rounds : Nat} (current : Fin maxNodes)
    {key : List UInt8} (hrounds : key.length ≤ rounds) :
    ∃ node, t.deleteLoop rounds current key = some node := by
  induction rounds generalizing current key with
  | zero =>
      rw [List.length_eq_zero_iff.mp (Nat.le_zero.mp hrounds)]
      exact ⟨some current, rfl⟩
  | succ rounds ih =>
      cases key with
      | nil => exact ⟨some current, rfl⟩
      | cons byte key =>
          rw [List.length_cons] at hrounds
          rw [RadixTree.deleteLoop]
          cases hchild : (t.nodes current).children byte with
          | none => exact ⟨none, rfl⟩
          | some child =>
              have hpos := h.fragment_pos hchild
              refine ih child ?_
              rw [List.length_drop, List.length_cons]
              omega

/-! ## Looking up -/

section Lookup

variable {t : RadixTree} {root : Fin maxNodes}

/-- `get` is a search for what the nodes hold. -/
theorem Inv.get_eq (h : t.Inv) (hroot : t.root = some root) {key : List UInt8}
    (hkey : 1 ≤ key.length) : t.get key = some (lookup t.trie t.held root key) := by
  rw [RadixTree.get, if_neg (by omega), hroot, lookup]
  obtain ⟨o, ho⟩ := h.search_isSome root key
  simp only [ho, Option.map_some]
  cases o with
  | node n => rfl
  | missing => rfl
  | mismatch => rfl

/-- `get` returns. -/
theorem Inv.get_returns (h : t.Inv) (key : List UInt8) : ∃ found, t.get key = some found := by
  rcases Nat.eq_zero_or_pos key.length with hzero | hpos
  · exact ⟨none, by rw [RadixTree.get, if_pos hzero]⟩
  · cases hroot : t.root with
    | none => exact ⟨none, by rw [RadixTree.get, hroot, if_neg (by omega)]⟩
    | some root => exact ⟨_, h.get_eq hroot hpos⟩

/-- **A deletion returns.** -/
theorem Inv.delete (h : t.Inv) (key : List UInt8) :
    ∃ t' b, t.delete key = some (t', b) ∧ t'.Inv := by
  obtain ⟨found, hget⟩ := h.get_returns key
  rw [RadixTree.delete, hget, Option.bind_some]
  cases found with
  | none => exact ⟨t, false, rfl, h⟩
  | some value =>
      cases t.root with
      | none => exact ⟨t, false, rfl, h⟩
      | some root =>
          obtain ⟨node, hloop⟩ := h.deleteLoop root (le_refl key.length)
          simp only [hloop, Option.map_some]
          cases node with
          | none => exact ⟨t, false, rfl, h⟩
          | some current => exact ⟨_, true, rfl, h.setValue current 0 false⟩

/-- **Every call returns**, and no child gets an empty fragment. -/
theorem Inv.call (h : t.Inv) (c : RadixCall) : ∃ t' b, t.call c = some (t', b) ∧ t'.Inv := by
  cases c with
  | insert key value => exact h.insert key value
  | delete key => exact h.delete key
  | clear => exact ⟨t.clear, true, rfl, h⟩

/-- **The walk remembers the longest prefix that is found**, or what it remembered before. -/
theorem Inv.prefixLoop_eq (h : t.Inv) {rounds : Nat} (current : Fin maxNodes)
    {key : List UInt8} (hrounds : key.length ≤ rounds) (keyIdx : Nat)
    (lastMatch : Option (Nat × Int)) :
    t.prefixLoop rounds current key keyIdx lastMatch =
      some (((longest (fun n => lookup t.trie t.held current (key.take n)) key.length).map
        fun p => (keyIdx + p.1, p.2)).or lastMatch) := by
  induction rounds generalizing current key keyIdx lastMatch with
  | zero =>
      rw [List.length_eq_zero_iff.mp (Nat.le_zero.mp hrounds)]
      rfl
  | succ rounds ih =>
      cases key with
      | nil => rfl
      | cons byte key =>
          rw [List.length_cons] at hrounds
          rw [RadixTree.prefixLoop]
          cases hchild : (t.nodes current).children byte with
          | none =>
              rw [longest_of_vacant (t := t.trie) hchild]
              rfl
          | some child =>
              by_cases hbegins : (t.nodes child).fragment <+: byte :: key
              · obtain ⟨f, r, hfragment, rfl⟩ := Solid.fragment_eq h hchild hbegins
                have hfragment' : (t.nodes child).fragment = byte :: f := hfragment
                rw [List.length_append] at hrounds
                have hmatched := matchLen_eq_length_iff.mpr hbegins
                simp only [hmatched, lt_irrefl, if_false]
                rw [hfragment', ← List.cons_append, List.drop_left, ih _ (by omega),
                  Solid.longest_append h (f := f) hchild hfragment, held]
                cases longest (fun n => lookup t.trie t.held child (r.take n)) r.length with
                | some p =>
                    simp only [Option.map_some, Option.some_or, Nat.add_assoc]
                | none =>
                    simp only [Option.map_none, Option.none_or]
                    split <;> rfl
              · simp only [if_pos (matchLen_lt_of_leaves hbegins)]
                rw [longest_of_leaves (t := t.trie) hchild hbegins]
                rfl

/-- **`longest_prefix_match` is the longest prefix that `get` finds.** -/
theorem Inv.longestPrefixMatch_eq (h : t.Inv) (key : List UInt8) :
    ∃ look : Nat → Option Int,
      (∀ n, 1 ≤ n → n ≤ key.length → t.get (key.take n) = some (look n)) ∧
        t.longestPrefixMatch key = some (longest look key.length) := by
  rw [longestPrefixMatch]
  split
  · next hzero =>
    rw [hzero]
    exact ⟨fun _ => none, fun n hn hn' => absurd hn (by omega), rfl⟩
  · cases hroot : t.root with
    | none =>
        refine ⟨fun _ => none, fun n hn hn' => ?_, ?_⟩
        · rw [RadixTree.get, List.length_take, if_neg (by omega), hroot]
        · rw [longest_eq_none_iff.mpr fun _ _ _ => rfl]
    | some root =>
        refine ⟨fun n => lookup t.trie t.held root (key.take n), fun n hn hn' => ?_, ?_⟩
        · exact h.get_eq hroot (by rw [List.length_take]; omega)
        · simp only [h.prefixLoop_eq root le_rfl, Nat.zero_add, Option.or_none]
          exact congrArg some Option.map_id'

end Lookup

/-! ## Runs -/

/-- What a call leaves behind. -/
def next (t : RadixTree) (c : RadixCall) : Option RadixTree :=
  (t.call c).map Prod.fst

/-- **`longest_prefix_match` agrees with `get`**: it returns the greatest length at which
`get` finds a prefix, with what is found there, and nothing if none is found. -/
def PrefixAgrees (t : RadixTree) (key : List UInt8) : Prop :=
  ∃ found, t.longestPrefixMatch key = some found ∧
    (∀ n value, found = some (n, value) ↔
      1 ≤ n ∧ n ≤ key.length ∧ t.get (key.take n) = some (some value) ∧
        ∀ m, n < m → m ≤ key.length → t.get (key.take m) = some none) ∧
    (found = none ↔ ∀ n, 1 ≤ n → n ≤ key.length → t.get (key.take n) = some none)

/-- The walk finds what `get` finds at the greatest length. -/
theorem Inv.prefixAgrees {t : RadixTree} (h : t.Inv) (key : List UInt8) : t.PrefixAgrees key := by
  obtain ⟨look, hget, hmatch⟩ := h.longestPrefixMatch_eq key
  have hlook : ∀ n found, 1 ≤ n → n ≤ key.length →
      (t.get (key.take n) = some found ↔ look n = found) := fun n found hn hn' => by
    rw [hget n hn hn', Option.some.injEq]
  refine ⟨_, hmatch, fun n value => ?_, ?_⟩
  · rw [longest_eq_some_iff]
    refine and_congr_right fun hn => and_congr_right fun hn' => ?_
    rw [hlook n _ hn hn']
    refine and_congr_right fun _ => forall_congr' fun m => ?_
    exact imp_congr_right fun hm => imp_congr_right fun hm' => (hlook m _ (by omega) hm').symm
  · rw [longest_eq_none_iff]
    refine forall_congr' fun m => ?_
    exact imp_congr_right fun hm => imp_congr_right fun hm' => (hlook m _ hm hm').symm

/-- **After any calls `longest_prefix_match` agrees with `get`.** -/
theorem longestPrefixMatch_of_calls (calls : List RadixCall) :
    ∃ t, run next new calls = some t ∧ ∀ key, t.PrefixAgrees key := by
  have hstep : ∀ (t : RadixTree) (c : RadixCall), t.Inv → ∃ t', t.next c = some t' ∧ t'.Inv := by
    intro t c h
    obtain ⟨t', b, hcall, h'⟩ := h.call c
    refine ⟨t', ?_, h'⟩
    rw [next, hcall]
    rfl
  obtain ⟨t, hcalls, h⟩ := exists_run_of_invariant hstep calls new inv_new
  exact ⟨t, hcalls, h.prefixAgrees⟩

/-- `test_longest_prefix_match`. -/
example : ((run next new [.insert [66] 1, .insert [66, 84] 2, .insert [66, 84, 67] 3]).bind
    fun t => t.longestPrefixMatch [66, 84, 67, 85, 83, 68, 84]) = some (some (3, 3)) := by
  decide

end RadixTree

end StopTrading.DataStructures
