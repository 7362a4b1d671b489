import StopTrading.Library.SuffixLinks
import Mathlib.Algebra.Group.Nat.Defs

/-!
# The keyword matcher

`AhoCorasickMatcher` builds a trie of at most 256 states from a list of patterns, adds
failure links and merged outputs breadth first, and scans texts with it.  Patterns and
texts are their bytes.  The flat transition table is a function of state and byte; a
write to a row outside the tables is a panic, and a walk along failure links that
visits more than 256 states never ends: both are `none`.

* `build` — phase 1 (`insertPattern`) and phase 2 (`buildFailureLinks`).
* `hasCritical` — the scan.
* `trieNodes`, `lastListing` — the words of the states in the order in which `build`
  numbers them, and the index under which a pattern is listed last.

### Design decisions

The source addresses one flat table as `state * ALPHABET_SIZE + byte`.  A state and a byte within
their bounds determine the cell, so the table is a function of both here, and a write to a row
outside is `none`, the panic that it would be.

What a walk along links costs is bounded by the number of states, if it ends at all.
`followFailure` takes that many rounds and is `none` beyond; that it never is, for a matcher that
was built, is part of what is proved about `build` and the scan.
-/

namespace StopTrading.Events

open SuffixLinks

/-- `MAX_PATTERNS`, also the number of states. -/
def maxPatterns : Nat := 256

/-- `ALPHABET_SIZE`. -/
def alphabetSize : Nat := 128

/-- The characters `0..ALPHABET_SIZE`. -/
def alphabet : List UInt8 := (List.range alphabetSize).map UInt8.ofNat

/-- A pattern with its priority. -/
abbrev Pattern := List UInt8 × Nat

/-- `AhoCorasickMatcher`. -/
structure AhoCorasickMatcher where
  transitions : Nat → UInt8 → Nat
  failure : Nat → Nat
  output : Nat → Nat
  priorities : Nat → Nat
  stateCount : Nat
  patternCount : Nat
  initialized : Bool

/-- Phase 1 in the middle of a pattern: `current_state` is the number of the next
state, `state` where the pattern has led so far. -/
structure Insertion where
  matcher : AhoCorasickMatcher
  currentState : Nat
  state : Nat

/-- One byte of a pattern in phase 1 of `build`. -/
def Insertion.insertByte (i : Insertion) (byte : UInt8) : Option Insertion :=
  let transitions := i.matcher.transitions
  if byte.toNat ≥ alphabetSize then some i
  else if transitions i.state byte = 0 then
    if i.currentState < maxPatterns then
      some
        { matcher :=
            { i.matcher with
              transitions :=
                Function.update
                  (Function.update transitions i.state
                    (Function.update (transitions i.state) byte (i.currentState % 2 ^ 16)))
                  i.currentState fun _ => 0 }
          currentState := i.currentState + 1
          state := i.currentState }
    else none
  else some { i with state := transitions i.state byte }

namespace AhoCorasickMatcher

/-- `AhoCorasickMatcher::new`. -/
def new : AhoCorasickMatcher where
  transitions := fun _ _ => 0
  failure := fun _ => 0
  output := fun _ => maxPatterns
  priorities := fun _ => 0
  stateCount := 1
  patternCount := 0
  initialized := false

/-- The reset at the start of `build`. -/
def resetCounts (m : AhoCorasickMatcher) : AhoCorasickMatcher :=
  { m with
    stateCount := 1
    patternCount := 0
    transitions := Function.update m.transitions 0 fun _ => 0 }

/-- The end of a pattern in phase 1 of `build`. -/
def markOutput (m : AhoCorasickMatcher) (state patternIdx priority : Nat) :
    AhoCorasickMatcher :=
  let marked :=
    if state < maxPatterns then
      { m with
        output := Function.update m.output state patternIdx
        priorities := Function.update m.priorities patternIdx priority }
    else m
  { marked with patternCount := (m.patternCount + 1) % 2 ^ 64 }

/-- A pattern in phase 1 of `build`, with the number of the next state. -/
def insertPattern (b : AhoCorasickMatcher × Nat) (p : Pattern × Nat) :
    Option (AhoCorasickMatcher × Nat) :=
  (p.1.1.foldlM Insertion.insertByte ⟨b.1, b.2, 0⟩).map fun i =>
    (i.matcher.markOutput i.state p.2 p.1.2, i.currentState)

/-- The loop along failure links, `while s != 0 && transitions[s][c] == 0`. -/
def followFailure (m : AhoCorasickMatcher) (c : UInt8) (s : Nat) : Option Nat :=
  follow m.transitions m.failure c maxPatterns s

/-- `failure[s]` is set to `link`, and the output of that state, if it has one, merged
into that of `s`. -/
def linkTo (m : AhoCorasickMatcher) (s link : Nat) : AhoCorasickMatcher :=
  { m with
    failure := Function.update m.failure s link
    output :=
      Function.update m.output s
        (if m.output link ≠ maxPatterns then m.output link else m.output s) }

/-- The child of `r` for the character `c` in phase 2: queued, linked and merged. -/
def linkChild (r : Nat) (q : AhoCorasickMatcher × List Nat) (c : UInt8) :
    Option (AhoCorasickMatcher × List Nat) :=
  let m := q.1
  let s := m.transitions r c
  if s ≠ 0 then
    (m.followFailure c (m.failure r)).map fun fail =>
      let target := m.transitions fail c
      (m.linkTo s (if target ≠ 0 ∧ target ≠ s then target else 0), q.2 ++ [s])
  else some q

/-- The breadth-first loop of phase 2, `while head < queue.len()`. -/
def linkStates : (fuel : Nat) → AhoCorasickMatcher → List Nat → (head : Nat) →
    Option AhoCorasickMatcher
  | fuel, m, queue, head =>
      match queue[head]?, fuel with
      | none, _ => some m
      | some _, 0 => none
      | some r, fuel + 1 =>
          (alphabet.foldlM (linkChild r) (m, queue)).bind fun q =>
            linkStates fuel q.1 q.2 (head + 1)

/-- The children of a state, in the order of their characters. -/
def childrenOf (m : AhoCorasickMatcher) (r : Nat) (cs : List UInt8) : List Nat :=
  (cs.map (m.transitions r)).filter (· ≠ 0)

/-- `build_failure_links`. -/
def buildFailureLinks (m : AhoCorasickMatcher) : Option AhoCorasickMatcher :=
  let roots := m.childrenOf 0 alphabet
  linkStates maxPatterns
    { m with failure := roots.foldl (fun failure s => Function.update failure s 0) m.failure }
    roots 0

/-- **`build`**: whether the patterns were accepted, and the matcher. -/
def build (m : AhoCorasickMatcher) (patterns : List Pattern) :
    Option (Bool × AhoCorasickMatcher) :=
  if patterns.length > maxPatterns then some (false, m)
  else
    (patterns.zipIdx.foldlM insertPattern (m.resetCounts, 1)).bind fun b =>
      (buildFailureLinks { b.1 with stateCount := b.2 }).map fun linked =>
        (true, { linked with initialized := true })

/-- The scan of `has_critical` from a state. -/
def scanCritical (m : AhoCorasickMatcher) : (state : Nat) → (text : List UInt8) → Option Bool
  | _, [] => some false
  | state, byte :: text =>
      if byte.toNat ≥ alphabetSize then m.scanCritical 0 text
      else
        (m.followFailure byte state).bind fun stop =>
          let next := m.transitions stop byte
          let state := if next ≠ 0 then next else stop
          let output := m.output state
          if output ≠ maxPatterns ∧ m.priorities output ≥ 3 then some true
          else m.scanCritical state text

/-- **`has_critical`**. -/
def hasCritical (m : AhoCorasickMatcher) (text : List UInt8) : Option Bool :=
  if !m.initialized then some false else m.scanCritical 0 text

end AhoCorasickMatcher

/-! ## What the states stand for -/

/-- The words of the states, in the order of their numbers: the distinct prefixes of the
patterns as they first appear. -/
def trieNodes (patterns : List Pattern) : List (List UInt8) :=
  patterns.foldl (fun nodes p => p.1.inits.foldl addNode nodes) [[]]

/-- The index under which a word is listed last. -/
def lastListing (patterns : List Pattern) (w : List UInt8) : Option Nat :=
  (patterns.zipIdx.reverse.find? fun p => p.1.1 == w).map Prod.snd

end StopTrading.Events
