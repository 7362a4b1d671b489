import StopTrading.Events.KeywordMatcher
import Mathlib.Data.List.Infix

/-!
# Phase 1: the trie

The tables after phase 1 of `build`, for lists that fit: the transition table has the
edges of `trieNodes`, and the output of a state is the index under which its word is
listed last.  Phase 1 does not clear the output table, so a state whose word is not
listed keeps the output which that state number had before.

* `Insertion.Reached` — the loop over the bytes of a pattern, `insertByte_spec` its
  step.
* `Listed` — the tables after some patterns, `insertPattern_spec` the step.
* `exists_listed` — phase 1 as a whole.

### What is load-bearing

A state is a number, and its word is what leads to it.  `trieNodes` is the list of the words in
the order of the numbers, computed from the patterns alone: a prefix gets the next number where
it first appears.  That the tables have just these edges (`Represents`) is the invariant of the
loop over the bytes, and since numbers are never given twice, another pattern only adds to the
list.

The output of a state is the *last* listing of its word, as a later pattern overwrites it.  For a
word that is not listed nothing is written, and there is the origin of stale entries.
-/

namespace StopTrading.Events

open SuffixLinks

/-- The lists that the matcher is specified for: at most 256 non-empty ASCII patterns
with at most 255 states besides the root. -/
structure Admissible (patterns : List Pattern) : Prop where
  /-- there is an index for each pattern -/
  count : patterns.length ≤ maxPatterns
  /-- none is empty -/
  nonempty : ∀ p ∈ patterns, p.1 ≠ []
  /-- all are of the alphabet -/
  ascii : ∀ p ∈ patterns, ∀ c ∈ p.1, c.toNat < alphabetSize
  /-- and there is a state for each prefix -/
  states : (trieNodes patterns).length ≤ maxPatterns

/-! ## Words -/

/-- The prefixes of a longer word. -/
theorem inits_concat {α : Type} (w : List α) (c : α) :
    (w ++ [c]).inits = w.inits ++ [w ++ [c]] := by
  rw [List.inits_append]
  rfl

/-- The nodes are those that were there and those that were added, -/
theorem mem_foldl_addNode {T ws : List (List UInt8)} {u : List UInt8} :
    u ∈ ws.foldl addNode T ↔ u ∈ T ∨ u ∈ ws := by
  induction ws generalizing T with
  | nil => simp
  | cons w ws ih => rw [List.foldl_cons, ih, mem_addNode, List.mem_cons, or_assoc]

/-- of which the former keep their numbers, -/
theorem getElem?_foldl_addNode {T : List (List UInt8)} {s : Nat} {u : List UInt8}
    (hs : T[s]? = some u) (ws : List (List UInt8)) : (ws.foldl addNode T)[s]? = some u := by
  induction ws generalizing T with
  | nil => exact hs
  | cons w ws ih => exact ih (getElem?_addNode hs w)

/-- and are no fewer. -/
theorem length_le_foldl_addNode (T ws : List (List UInt8)) :
    T.length ≤ (ws.foldl addNode T).length := by
  induction ws generalizing T with
  | nil => exact le_rfl
  | cons w ws ih => exact (length_le_addNode T w).trans (ih _)

/-- One pattern more. -/
theorem trieNodes_concat (patterns : List Pattern) (p : Pattern) :
    trieNodes (patterns ++ [p]) = p.1.inits.foldl addNode (trieNodes patterns) := by
  unfold trieNodes
  rw [List.foldl_append]
  rfl

/-- Another pattern leaves the numbers of the states alone, -/
theorem getElem?_trieNodes_concat {patterns : List Pattern} {s : Nat} {w : List UInt8}
    (hs : (trieNodes patterns)[s]? = some w) (p : Pattern) :
    (trieNodes (patterns ++ [p]))[s]? = some w := by
  rw [trieNodes_concat]
  exact getElem?_foldl_addNode hs p.1.inits

/-- and there are no fewer of them. -/
theorem length_le_trieNodes_concat (patterns : List Pattern) (p : Pattern) :
    (trieNodes patterns).length ≤ (trieNodes (patterns ++ [p])).length := by
  rw [trieNodes_concat]
  exact length_le_foldl_addNode _ _

/-- The nodes are the prefixes of the patterns. -/
theorem mem_trieNodes {patterns : List Pattern} {u : List UInt8} :
    u ∈ trieNodes patterns ↔ u = [] ∨ ∃ p ∈ patterns, u <+: p.1 := by
  induction patterns using List.reverseRecOn with
  | nil => simp [trieNodes]
  | append_singleton patterns p ih =>
      rw [trieNodes_concat, mem_foldl_addNode, ih, List.mem_inits]
      simp only [List.mem_append, List.mem_singleton, or_and_right, exists_or, exists_eq_left,
        or_assoc]

/-- A pattern is the last listing of its own word. -/
theorem lastListing_concat (patterns : List Pattern) (p : Pattern) (w : List UInt8) :
    lastListing (patterns ++ [p]) w =
      if p.1 = w then some patterns.length else lastListing patterns w := by
  unfold lastListing
  rw [List.zipIdx_append, List.reverse_append]
  by_cases h : p.1 = w <;> simp [h]

/-- The last listing of a word is a listing of it. -/
theorem listed_of_lastListing {patterns : List Pattern} {w : List UInt8} {i : Nat}
    (h : lastListing patterns w = some i) : ∃ p, patterns[i]? = some p ∧ p.1 = w := by
  obtain ⟨p, hp, rfl⟩ := Option.map_eq_some_iff.mp h
  have hmem := List.mem_of_find?_eq_some hp
  have hword := List.find?_some hp
  rw [List.mem_reverse, List.mem_zipIdx_iff_getElem?] at hmem
  exact ⟨p.1, hmem, beq_iff_eq.mp hword⟩

/-- What is not listed has no last listing. -/
theorem lastListing_eq_none {patterns : List Pattern} {w : List UInt8}
    (h : ∀ p ∈ patterns, p.1 ≠ w) : lastListing patterns w = none := by
  by_contra hlisted
  obtain ⟨i, hi⟩ := Option.ne_none_iff_exists'.mp hlisted
  obtain ⟨p, hp, hword⟩ := listed_of_lastListing hi
  exact h p (List.mem_of_getElem? hp) hword

/-- A pattern is a prefix of itself. -/
theorem mem_trieNodes_of_listed {patterns : List Pattern} {p : Pattern} (hp : p ∈ patterns) :
    p.1 ∈ trieNodes patterns :=
  mem_trieNodes.mpr (Or.inr ⟨p, hp, List.prefix_rfl⟩)

/-- A word whose state is new with `p` has not been listed before. -/
theorem lastListing_eq_none_of_length_le {patterns : List Pattern} {p : Pattern}
    {next : Nat → UInt8 → Nat} (hT : Represents (trieNodes (patterns ++ [p])) next) {s : Nat}
    {w : List UInt8} (hs : (trieNodes (patterns ++ [p]))[s]? = some w)
    (hnew : (trieNodes patterns).length ≤ s) : lastListing patterns w = none := by
  refine lastListing_eq_none fun q hq hword => ?_
  subst hword
  obtain ⟨t, ht⟩ := List.mem_iff_getElem?.mp (mem_trieNodes_of_listed hq)
  obtain rfl := hT.state_inj hs (getElem?_trieNodes_concat ht p)
  exact absurd (List.getElem?_eq_some_iff.mp ht).1 (Nat.not_lt.mpr hnew)

/-! ## A pattern -/

/-- The loop over the bytes of a pattern has **reached** the word `w` of the trie `T`,
and has left the outputs and priorities of `m` alone. -/
structure Insertion.Reached (i : Insertion) (m : AhoCorasickMatcher) (T : List (List UInt8))
    (w : List UInt8) : Prop where
  /-- the tables are those of the trie -/
  represents : Represents T i.matcher.transitions
  /-- the next number is free -/
  currentState_eq : i.currentState = T.length
  /-- the loop is at the word -/
  state_eq : T[i.state]? = some w
  /-- and has written no output -/
  output_eq : i.matcher.output = m.output
  /-- and no priority -/
  priorities_eq : i.matcher.priorities = m.priorities

/-- **One byte** leads to the next prefix, with a new number if it has none, -/
theorem Insertion.Reached.insertByte_spec {i : Insertion} {m : AhoCorasickMatcher}
    {T : List (List UInt8)} {w : List UInt8} (h : i.Reached m T w) {c : UInt8}
    (hc : c.toNat < alphabetSize) (hroom : (addNode T (w ++ [c])).length ≤ maxPatterns) :
    ∃ i', i.insertByte c = some i' ∧ i'.Reached m (addNode T (w ++ [c])) (w ++ [c]) := by
  unfold insertByte
  rw [if_neg (Nat.not_le.mpr hc)]
  by_cases hgap : i.matcher.transitions i.state c = 0
  · have hnew : w ++ [c] ∉ T := h.represents.gap h.state_eq hgap
    unfold addNode at hroom ⊢
    rw [if_neg hnew] at hroom ⊢
    rw [List.length_append, List.length_singleton, maxPatterns] at hroom
    have hnumber : T.length % 2 ^ 16 = T.length := Nat.mod_eq_of_lt (by omega)
    have hlt : i.currentState < maxPatterns := by
      rw [h.currentState_eq, maxPatterns]
      omega
    rw [if_pos hgap, if_pos hlt, h.currentState_eq, hnumber]
    refine ⟨_, rfl, h.represents.grow h.state_eq hgap, ?_, ?_, h.output_eq, h.priorities_eq⟩
    · rw [List.length_append, List.length_singleton]
    · exact List.getElem?_concat_length
  · have hedge := h.represents.edge h.state_eq hgap
    unfold addNode
    rw [if_neg hgap, if_pos (List.mem_of_getElem? hedge)]
    exact ⟨_, rfl, h.represents, h.currentState_eq, hedge, h.output_eq, h.priorities_eq⟩

/-- and the bytes of a pattern lead to its word. -/
theorem Insertion.Reached.insertBytes_spec {i : Insertion} {m : AhoCorasickMatcher}
    {T : List (List UInt8)} (h : i.Reached m T []) (w : List UInt8)
    (hascii : ∀ c ∈ w, c.toNat < alphabetSize)
    (hroom : (w.inits.foldl addNode T).length ≤ maxPatterns) :
    ∃ i', w.foldlM insertByte i = some i' ∧ i'.Reached m (w.inits.foldl addNode T) w := by
  induction w using List.reverseRecOn with
  | nil =>
      have hroot : addNode T [] = T := if_pos h.represents.root_mem
      refine ⟨i, rfl, ?_⟩
      change i.Reached m (addNode T []) []
      rwa [hroot]
  | append_singleton w c ih =>
      rw [inits_concat, List.foldl_append, List.foldl_cons, List.foldl_nil] at hroom ⊢
      rw [List.forall_mem_append, List.forall_mem_singleton] at hascii
      obtain ⟨i', hrun, hreached⟩ := ih hascii.1 ((length_le_addNode _ _).trans hroom)
      obtain ⟨i'', hstep, hreached'⟩ := hreached.insertByte_spec hascii.2 hroom
      refine ⟨i'', ?_, hreached'⟩
      rw [List.foldlM_append, hrun, Option.bind_eq_bind, Option.bind_some, List.foldlM_cons, hstep]
      rfl

/-! ## All patterns -/

/-- The tables after phase 1 has read `patterns` into the matcher `m₀`. -/
structure Listed (m₀ m : AhoCorasickMatcher) (patterns : List Pattern) : Prop where
  /-- the tables are those of the prefixes -/
  represents : Represents (trieNodes patterns) m.transitions
  /-- a listed word has its last index, others have what was there -/
  output_eq : ∀ s w, (trieNodes patterns)[s]? = some w →
    m.output s = (lastListing patterns w).getD (m₀.output s)
  /-- as have the states that are not used -/
  output_above : ∀ s, (trieNodes patterns).length ≤ s → m.output s = m₀.output s
  /-- priorities are those listed -/
  priorities_eq : ∀ i, m.priorities i = (patterns[i]?.map Prod.snd).getD (m₀.priorities i)

namespace Listed

variable {m₀ m : AhoCorasickMatcher} {patterns : List Pattern}

/-- Before the first pattern there is the root. -/
theorem reset (m₀ : AhoCorasickMatcher) : Listed m₀ m₀.resetCounts [] where
  represents :=
    { root := rfl
      nodup := List.nodup_singleton _
      closed := fun w c h => absurd (congrArg List.length (List.mem_singleton.mp h)) (by simp)
      edge := fun {s w c} hs hedge => by
        have hs0 : s = 0 := by
          have hlt := (List.getElem?_eq_some_iff.mp hs).1
          exact Nat.lt_one_iff.mp hlt
        subst hs0
        exact absurd (congrFun (Function.update_self 0 _ m₀.transitions) c) hedge
      gap := fun _ _ h => absurd (congrArg List.length (List.mem_singleton.mp h)) (by simp) }
  output_eq := fun _ _ _ => rfl
  output_above := fun _ _ => rfl
  priorities_eq := fun _ => rfl

/-- A pattern is added to the tables under the next index. -/
theorem insertPattern_spec (h : Listed m₀ m patterns) {p : Pattern}
    (hascii : ∀ c ∈ p.1, c.toNat < alphabetSize)
    (hroom : (trieNodes (patterns ++ [p])).length ≤ maxPatterns) :
    ∃ m', AhoCorasickMatcher.insertPattern (m, (trieNodes patterns).length)
        (p, patterns.length) = some (m', (trieNodes (patterns ++ [p])).length) ∧
      Listed m₀ m' (patterns ++ [p]) := by
  have hstart : Insertion.Reached ⟨m, (trieNodes patterns).length, 0⟩ m (trieNodes patterns) [] :=
    ⟨h.represents, rfl, h.represents.root, rfl, rfl⟩
  rw [trieNodes_concat] at hroom
  obtain ⟨i, hrun, hreached⟩ := hstart.insertBytes_spec p.1 hascii hroom
  rw [← trieNodes_concat] at hreached hroom
  have hlt : i.state < maxPatterns :=
    (List.getElem?_eq_some_iff.mp hreached.state_eq).1.trans_le hroom
  refine ⟨i.matcher.markOutput i.state patterns.length p.2, ?_, ?_, ?_, ?_, ?_⟩
  · unfold AhoCorasickMatcher.insertPattern
    rw [hrun, Option.map_some, hreached.currentState_eq]
  all_goals
    unfold AhoCorasickMatcher.markOutput
    rw [if_pos hlt]
  · exact hreached.represents
  · intro s w hs
    change Function.update i.matcher.output i.state patterns.length s = _
    rw [lastListing_concat, hreached.output_eq]
    by_cases hword : p.1 = w
    · subst hword
      rw [if_pos rfl, hreached.represents.state_inj hs hreached.state_eq, Function.update_self]
      rfl
    · -- an old word keeps its output, a new one has the stale entry of its number
      have hne : s ≠ i.state := by
        rintro rfl
        exact hword (Option.some.inj (hreached.state_eq.symm.trans hs))
      rw [if_neg hword, Function.update_of_ne hne]
      by_cases hold : s < (trieNodes patterns).length
      · have hword := getElem?_trieNodes_concat (List.getElem?_eq_getElem hold) p
        rw [hs] at hword
        exact h.output_eq s w ((List.getElem?_eq_getElem hold).trans hword.symm)
      · rw [Nat.not_lt] at hold
        rw [lastListing_eq_none_of_length_le hreached.represents hs hold, h.output_above s hold]
        rfl
  · intro s hs
    change Function.update i.matcher.output i.state patterns.length s = _
    have hne : s ≠ i.state := by
      rintro rfl
      exact absurd (List.getElem?_eq_some_iff.mp hreached.state_eq).1 (Nat.not_lt.mpr hs)
    rw [Function.update_of_ne hne, hreached.output_eq]
    exact h.output_above s ((length_le_trieNodes_concat patterns p).trans hs)
  · intro j
    change Function.update i.matcher.priorities patterns.length p.2 j = _
    rw [hreached.priorities_eq]
    by_cases hj : j = patterns.length
    · subst hj
      rw [Function.update_self, List.getElem?_concat_length]
      rfl
    · rw [Function.update_of_ne hj, h.priorities_eq]
      by_cases hlt : j < patterns.length
      · rw [List.getElem?_append_left hlt]
      · rw [List.getElem?_eq_none (Nat.not_lt.mp hlt), List.getElem?_eq_none (by simp; omega)]

end Listed

/-- **Phase 1**, on a list that fits. -/
theorem exists_listed (m₀ : AhoCorasickMatcher) (patterns : List Pattern)
    (hascii : ∀ p ∈ patterns, ∀ c ∈ p.1, c.toNat < alphabetSize)
    (hroom : (trieNodes patterns).length ≤ maxPatterns) :
    ∃ m, patterns.zipIdx.foldlM AhoCorasickMatcher.insertPattern (m₀.resetCounts, 1) =
        some (m, (trieNodes patterns).length) ∧ Listed m₀ m patterns := by
  induction patterns using List.reverseRecOn with
  | nil => exact ⟨m₀.resetCounts, rfl, Listed.reset m₀⟩
  | append_singleton patterns p ih =>
      rw [List.forall_mem_append, List.forall_mem_singleton] at hascii
      have hle := length_le_trieNodes_concat patterns p
      obtain ⟨m, hrun, hlisted⟩ := ih hascii.1 (hle.trans hroom)
      obtain ⟨m', hstep, hlisted'⟩ := hlisted.insertPattern_spec hascii.2 hroom
      refine ⟨m', ?_, hlisted'⟩
      rw [List.zipIdx_append, List.foldlM_append, hrun, Option.bind_eq_bind, Option.bind_some,
        Nat.zero_add]
      change (List.foldlM _ _ [(p, patterns.length)]) = _
      rw [List.foldlM_cons, hstep]
      rfl

end StopTrading.Events
