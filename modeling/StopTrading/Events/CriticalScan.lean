import StopTrading.Events.KeywordLinks
import StopTrading.Events.KeywordTrie

/-!
# Which texts are critical

What `has_critical` answers after `build`, for every list that fits and every text.
The scan stands at the longest suffix of the text read so far that is a state, and
looks at the merged output there: that of the shortest marked suffix.  A state is marked
by the last listing of its word, or else by what the output table held under its
number before the build.

* `hasCritical_spec` — a text is reported exactly when it contains a word that is
  marked as critical and has no marked proper suffix (`Caught`).
* `answersCritical_iff_criticalFirst` — so critical patterns are reported in all texts, and
  nothing else is, exactly when every critical pattern contains such a word and every
  such word contains a critical pattern; `criticalFirst_new_iff` is the condition for a
  fresh matcher.

### What is load-bearing

The answer of the scan is a property of the text, of the words of the trie and of their marks, in
which no state occurs (`Caught`).  The step from one to the other is the automaton lemma of
`SuffixLinks`: behind a text the scan stands at the longest suffix that is a word of the trie.

The merged output at a state is that of the *shortest* marked suffix, because outputs are merged
along links from the inside out, and a state that has no mark of its own takes over what its link
has, while one that has a mark is overwritten if its link has one.  That is where critical
patterns get lost: an uncritical ending of a critical word hides it.

Stale entries come from an earlier `build`, which resets counts and not tables.  They are marks
like others, with a priority that may be stale too.
-/

namespace StopTrading.Events

open SuffixLinks AhoCorasickMatcher

/-! ## Marks -/

/-- The number that `build` gives to the state of a word. -/
def stateNumber (patterns : List Pattern) (w : List UInt8) : Nat := (trieNodes patterns).idxOf w

/-- What the output table holds under the number that the state of `w` will get. -/
def staleMark (m : AhoCorasickMatcher) (patterns : List Pattern) (w : List UInt8) :
    Option Nat :=
  if w ∈ trieNodes patterns ∧ m.output (stateNumber patterns w) ≠ maxPatterns then
    some (m.output (stateNumber patterns w))
  else none

/-- **The mark of a word** in phase 1: its last listing, or a stale entry. -/
def markOf (m : AhoCorasickMatcher) (patterns : List Pattern) (w : List UInt8) : Option Nat :=
  (lastListing patterns w).or (staleMark m patterns w)

/-- The priority under an index after `build`: a new one, or a stale one. -/
def priorityOf (m : AhoCorasickMatcher) (patterns : List Pattern) (i : Nat) : Nat :=
  (patterns[i]?.map Prod.snd).getD (m.priorities i)

/-- The first state is the root. -/
theorem trieNodes_root (patterns : List Pattern) : (trieNodes patterns).head? = some [] := by
  induction patterns using List.reverseRecOn with
  | nil => rfl
  | append_singleton patterns p ih =>
      rw [List.head?_eq_getElem?] at ih ⊢
      exact getElem?_trieNodes_concat ih p

variable {m m' : AhoCorasickMatcher} {patterns : List Pattern}

/-- The marks are those of words of the trie, none at the root. -/
theorem markable (hroot : m.output 0 = maxPatterns) (hfits : Admissible patterns) :
    Markable (trieNodes patterns) (markOf m patterns) where
  room := hfits.states
  ascii := fun w hw c hc => by
    rcases mem_trieNodes.mp hw with rfl | ⟨p, hp, hbefore⟩
    · cases hc
    · exact hfits.ascii p hp c (hbefore.subset hc)
  mark_root := by
    have hfirst : stateNumber patterns [] = 0 := by
      obtain ⟨nodes, hnodes⟩ := List.head?_eq_some_iff.mp (trieNodes_root patterns)
      rw [stateNumber, hnodes, List.idxOf_cons_self]
    unfold markOf staleMark
    rw [lastListing_eq_none hfits.nonempty, hfirst, Option.none_or, if_neg (fun h => h.2 hroot)]
  mark_ne := fun {w i} hmark => by
    unfold markOf staleMark at hmark
    rcases Option.or_eq_some_iff.mp hmark with hlisted | ⟨-, hstale⟩
    · obtain ⟨p, hp, -⟩ := listed_of_lastListing hlisted
      have hlt := (List.getElem?_eq_some_iff.mp hp).1
      have hcount := hfits.count
      omega
    · split at hstale
      · rename_i hentry
        obtain rfl := Option.some.inj hstale
        exact hentry.2
      · cases hstale
  mark_notMem := fun w hw => by
    unfold markOf staleMark
    rw [if_neg (fun h => hw h.1), Option.or_none]
    refine lastListing_eq_none fun p hp hword => hw ?_
    rw [← hword]
    exact mem_trieNodes_of_listed hp

/-- Phase 1 leaves the marks in the output table. -/
theorem Listed.output_eq_markOf (h : Listed m m' patterns) {s : Nat} {w : List UInt8}
    (hs : (trieNodes patterns)[s]? = some w) :
    m'.output s = outputEntry (markOf m patterns w) := by
  have hmem := List.mem_of_getElem? hs
  have hidx : stateNumber patterns w = s :=
    h.represents.state_inj (List.getElem?_idxOf hmem) hs
  rw [h.output_eq s w hs]
  unfold markOf staleMark
  rw [hidx]
  cases hlisted : lastListing patterns w with
  | some i => rfl
  | none =>
      rw [Option.getD_none, Option.none_or]
      by_cases hentry : m.output s = maxPatterns
      · rw [if_neg (fun h => h.2 hentry), hentry]
        rfl
      · rw [if_pos ⟨hmem, hentry⟩]
        rfl

/-! ## Building -/

/-- **`build` succeeds** on a list that fits, with all states linked. -/
theorem build_spec (hroot : m.output 0 = maxPatterns) (hfits : Admissible patterns) :
    ∃ m₁ m', m.build patterns = some (true, m') ∧ m'.initialized = true ∧
      Linked (trieNodes patterns) (markOf m patterns) m₁ m' ∧
      ∀ i, m'.priorities i = priorityOf m patterns i := by
  obtain ⟨m₁, hphase1, hlisted⟩ := exists_listed m patterns hfits.ascii hfits.states
  obtain ⟨m₂, hphase2, hlinked⟩ := exists_linked
    (m := { m₁ with stateCount := (trieNodes patterns).length }) hlisted.represents
    (markable hroot hfits) fun s w hs => hlisted.output_eq_markOf hs
  refine ⟨m₁, { m₂ with initialized := true }, ?_, rfl,
    ⟨hlinked.represents, hlinked.root, fun s w hs hne => ?_, hlinked.priorities⟩, fun i => ?_⟩
  · unfold build
    rw [if_neg (Nat.not_lt.mpr hfits.count), hphase1, Option.bind_some, hphase2]
    rfl
  · exact ⟨(hlinked.linked s w hs hne).failure, (hlinked.linked s w hs hne).output⟩
  · exact (congrFun hlinked.priorities i).trans (hlisted.priorities_eq i)

/-! ## Scanning -/

/-- **A text is caught**: it contains a word that is marked as critical and has no
marked proper suffix. -/
def Caught (m : AhoCorasickMatcher) (patterns : List Pattern) (text : List UInt8) : Prop :=
  ∃ u i, u <:+: text ∧ FirstMarked (markOf m patterns) i u ∧ 3 ≤ priorityOf m patterns i

section Scan

variable {T : List (List UInt8)} {mark : List UInt8 → Option Nat} {m₁ : AhoCorasickMatcher}

/-- All links are those of the library, up to any length. -/
theorem Linked.linkedUpTo (h : Linked T mark m₁ m) (k : Nat) : LinkedUpTo T m.failure k :=
  fun s w hs hne _ => (h.linked s w hs hne).failure

/-- The output of a state is the mark of its shortest marked suffix, at the root too. -/
theorem Linked.output_eq (h : Linked T mark m₁ m) {s : Nat} {w : List UInt8}
    (hs : T[s]? = some w) : m.output s = outputEntry (shortestMark mark w) := by
  by_cases hne : w = []
  · subst hne
    rw [(h.represents.eq_zero_iff hs).mpr rfl]
    exact h.root
  · exact (h.linked s w hs hne).output

/-- A character outside the alphabet leads back to the root. -/
theorem longestSuffix_nonAscii (hfits : Markable T mark) (w : List UInt8)
    {c : UInt8} (hc : alphabetSize ≤ c.toNat) : longestSuffix T (w ++ [c]) = [] := by
  have hnot : ∀ u : List UInt8, u ++ [c] ∉ T := fun u hu =>
    absurd (hfits.ascii _ hu c (by simp)) (Nat.not_lt.mpr hc)
  induction w with
  | nil =>
      have hnil : [c] ∉ T := hnot []
      rw [List.nil_append, longestSuffix_cons_of_notMem hnil]
      rfl
  | cons a w ih =>
      have hcons : a :: (w ++ [c]) ∉ T := hnot (a :: w)
      rw [List.cons_append, longestSuffix_cons_of_notMem hcons, ih]

/-- **A word is critical** when its shortest marked suffix is. -/
def CriticalHere (mark : List UInt8 → Option Nat) (m : AhoCorasickMatcher) (w : List UInt8) :
    Prop :=
  ∃ i, shortestMark mark w = some i ∧ 3 ≤ m.priorities i

/-- Some prefix of the text completes the word `w`, already read, to a critical one. -/
def CriticalAhead (mark : List UInt8 → Option Nat) (m : AhoCorasickMatcher)
    (w text : List UInt8) : Prop :=
  ∃ v, v ≠ [] ∧ v <+: text ∧ CriticalHere mark m (w ++ v)

/-- One character more. -/
theorem criticalAhead_cons {w text : List UInt8} {c : UInt8} :
    CriticalAhead mark m w (c :: text) ↔
      CriticalHere mark m (w ++ [c]) ∨ CriticalAhead mark m (w ++ [c]) text := by
  constructor
  · rintro ⟨v, hne, hv, hcritical⟩
    obtain ⟨a, v, rfl⟩ := List.exists_cons_of_ne_nil hne
    obtain ⟨rfl, htail⟩ := List.cons_prefix_cons.mp hv
    by_cases hnil : v = []
    · subst hnil
      exact Or.inl hcritical
    · rw [List.append_cons w a v] at hcritical
      exact Or.inr ⟨v, hnil, htail, hcritical⟩
  · rintro (hcritical | ⟨v, -, hv, hcritical⟩)
    · exact ⟨[c], List.cons_ne_nil _ _, List.cons_prefix_cons.mpr ⟨rfl, List.nil_prefix⟩, hcritical⟩
    · rw [← List.append_cons w c v] at hcritical
      exact ⟨c :: v, List.cons_ne_nil _ _, List.cons_prefix_cons.mpr ⟨rfl, hv⟩, hcritical⟩

/-- What the scan checks at a state. -/
theorem criticalHere_iff (h : Linked T mark m₁ m) (hfits : Markable T mark) {s : Nat}
    {w : List UInt8} (hs : T[s]? = some (longestSuffix T w)) :
    (m.output s ≠ maxPatterns ∧ m.priorities (m.output s) ≥ 3) ↔ CriticalHere mark m w := by
  unfold CriticalHere
  rw [h.output_eq hs, shortestMark_longestSuffix hfits.mark_notMem, ne_eq,
    outputEntry_eq_iff hfits]
  cases shortestMark mark w with
  | none => simp
  | some i => simp [outputEntry]

/-- **The scan** from the place after a word `w`. -/
theorem scanCritical_spec (h : Linked T mark m₁ m) (hfits : Markable T mark) {state : Nat}
    {w : List UInt8} (hs : T[state]? = some (longestSuffix T w)) (text : List UInt8) :
    ∃ b, m.scanCritical state text = some b ∧ (b = true ↔ CriticalAhead mark m w text) := by
  induction text generalizing state w with
  | nil =>
      refine ⟨false, rfl, iff_of_false Bool.false_ne_true ?_⟩
      rintro ⟨v, hne, hv, -⟩
      exact hne (List.prefix_nil.mp hv)
  | cons c text ih =>
      rw [criticalAhead_cons, scanCritical]
      split
      · rename_i hascii
        have hplace := longestSuffix_nonAscii hfits w hascii
        have hs' : T[0]? = some (longestSuffix T (w ++ [c])) := by
          rw [hplace]
          exact h.represents.root
        obtain ⟨b, hrun, hb⟩ := ih hs'
        refine ⟨b, hrun, hb.trans (or_iff_right ?_).symm⟩
        rw [← criticalHere_iff h hfits hs', h.root]
        exact fun hcritical => hcritical.1 rfl
      · have hfuel : (longestSuffix T w).length < maxPatterns :=
          (h.represents.closed.length_lt (longestSuffix_mem h.represents.root_mem w)).trans_le
            hfits.room
        obtain ⟨stop, v, hwalk, hstop, -, hplace, hends⟩ :=
          follow_spec (c := c) h.represents (h.linkedUpTo _) hs le_rfl hfuel
        have hs' := place_of_stop h.represents hstop hends
        rw [← hplace, ← longestSuffix_append h.represents.closed] at hs'
        rw [followFailure, hwalk, Option.bind_some]
        dsimp only
        generalize (if m.transitions stop c ≠ 0 then m.transitions stop c else stop) = next at hs' ⊢
        split
        · rename_i hcritical
          exact ⟨true, rfl, iff_of_true rfl (Or.inl ((criticalHere_iff h hfits hs').mp hcritical))⟩
        · rename_i hcritical
          obtain ⟨b, hrun, hb⟩ := ih hs'
          refine ⟨b, hrun, hb.trans (or_iff_right ?_).symm⟩
          exact (criticalHere_iff h hfits hs').not.mp hcritical

end Scan

/-- **`has_critical`** after `build`: a text is reported exactly when it is caught. -/
theorem hasCritical_spec (hroot : m.output 0 = maxPatterns) (hfits : Admissible patterns) :
    ∃ m', m.build patterns = some (true, m') ∧ m'.output 0 = maxPatterns ∧
      ∀ text, ∃ b, m'.hasCritical text = some b ∧ (b = true ↔ Caught m patterns text) := by
  obtain ⟨m₁, m', hbuild, hinit, hlinked, hpriorities⟩ := build_spec hroot hfits
  refine ⟨m', hbuild, hlinked.root, fun text => ?_⟩
  obtain ⟨b, hrun, hb⟩ :=
    scanCritical_spec hlinked (markable hroot hfits) (w := []) hlinked.represents.root text
  refine ⟨b, ?_, hb.trans ?_⟩
  · rw [hasCritical, hinit, Bool.not_true, if_neg Bool.false_ne_true, hrun]
  · constructor
    · rintro ⟨v, -, hv, i, hmark, hpriority⟩
      obtain ⟨u, hu, hfirst⟩ := shortestMark_eq_some_iff.mp hmark
      rw [hpriorities] at hpriority
      exact ⟨u, i, List.infix_iff_suffix_prefix.mpr ⟨v, hu, hv⟩, hfirst, hpriority⟩
    · rintro ⟨u, i, hinfix, hfirst, hpriority⟩
      obtain ⟨v, hu, hv⟩ := List.infix_iff_suffix_prefix.mp hinfix
      rw [← hpriorities] at hpriority
      refine ⟨v, ?_, hv, i, shortestMark_eq_some_iff.mpr ⟨u, hu, hfirst⟩, hpriority⟩
      rintro rfl
      exact hfirst.ne_nil (List.suffix_nil.mp hu)

/-! ## Critical keywords -/

/-- A matcher that is fresh or was built any number of times. -/
inductive Built : AhoCorasickMatcher → Prop where
  | new : Built .new
  | build {m m' : AhoCorasickMatcher} {patterns : List Pattern} (before : Built m)
      (fits : Admissible patterns) (built : m.build patterns = some (true, m')) : Built m'

/-- The root never has an output. -/
theorem Built.output_root (h : Built m) : m.output 0 = maxPatterns := by
  induction h with
  | new => rfl
  | build before fits built ih =>
      obtain ⟨m', hbuild, hroot, -⟩ := hasCritical_spec ih fits
      rw [built] at hbuild
      obtain ⟨-, rfl⟩ := Prod.mk.inj (Option.some.inj hbuild)
      exact hroot

/-- Some pattern of priority at least 3 occurs in the text. -/
def CriticalOccurs (patterns : List Pattern) (text : List UInt8) : Prop :=
  ∃ p ∈ patterns, 3 ≤ p.2 ∧ p.1 <:+: text

/-- **Critical keywords are never missed**, and nothing else is reported. -/
def AnswersCritical (m : AhoCorasickMatcher) (patterns : List Pattern) : Prop :=
  ∀ text, ∃ b, m.hasCritical text = some b ∧ (b = true ↔ CriticalOccurs patterns text)

/-- **Critical words come first**: every critical pattern contains a word that is marked
as critical and has no marked proper suffix, and every such word contains a critical
pattern. -/
structure CriticalFirst (m : AhoCorasickMatcher) (patterns : List Pattern) : Prop where
  /-- a critical pattern is caught wherever it occurs -/
  caught : ∀ p ∈ patterns, 3 ≤ p.2 → Caught m patterns p.1
  /-- and what is caught is one -/
  genuine : ∀ u i, FirstMarked (markOf m patterns) i u → 3 ≤ priorityOf m patterns i →
    CriticalOccurs patterns u

/-- **When `has_critical` is right on all texts**, for a list built into a fresh matcher
or into one built before. -/
theorem answersCritical_iff_criticalFirst (hm : Built m) (hfits : Admissible patterns) :
    ∃ m', m.build patterns = some (true, m') ∧
      (AnswersCritical m' patterns ↔ CriticalFirst m patterns) := by
  obtain ⟨m', hbuild, -, hscan⟩ := hasCritical_spec hm.output_root hfits
  refine ⟨m', hbuild, fun hanswers => ?_, fun hfirst text => ?_⟩
  · have hiff : ∀ text, Caught m patterns text ↔ CriticalOccurs patterns text := by
      intro text
      obtain ⟨b, hrun, hb⟩ := hscan text
      obtain ⟨b', hrun', hb'⟩ := hanswers text
      obtain rfl := Option.some.inj (hrun.symm.trans hrun')
      exact hb.symm.trans hb'
    exact ⟨fun p hp hcritical => (hiff p.1).mpr ⟨p, hp, hcritical, List.infix_rfl⟩,
      fun u i hmarked hcritical => (hiff u).mp ⟨u, i, List.infix_rfl, hmarked, hcritical⟩⟩
  · obtain ⟨b, hrun, hb⟩ := hscan text
    refine ⟨b, hrun, hb.trans ⟨?_, ?_⟩⟩
    · rintro ⟨u, i, hinfix, hmarked, hcritical⟩
      obtain ⟨p, hp, hpriority, hoccurs⟩ := hfirst.genuine u i hmarked hcritical
      exact ⟨p, hp, hpriority, hoccurs.trans hinfix⟩
    · rintro ⟨p, hp, hpriority, hoccurs⟩
      obtain ⟨u, i, hinfix, hmarked, hcritical⟩ := hfirst.caught p hp hpriority
      exact ⟨u, i, hinfix.trans hoccurs, hmarked, hcritical⟩

/-- A fresh matcher has no stale entries. -/
theorem markOf_new (patterns : List Pattern) : markOf .new patterns = lastListing patterns := by
  funext w
  unfold markOf staleMark
  rw [if_neg (fun h => h.2 rfl), Option.or_none]

/-- **For a fresh matcher**: every critical pattern contains a listed word that is
critical in its last listing and has no other listed word as a suffix. -/
theorem criticalFirst_new_iff (patterns : List Pattern) :
    CriticalFirst .new patterns ↔
      ∀ p ∈ patterns, 3 ≤ p.2 → ∃ q i, q.1 <:+: p.1 ∧ patterns[i]? = some q ∧ 3 ≤ q.2 ∧
        FirstMarked (lastListing patterns) i q.1 := by
  have hlisted : ∀ u i, FirstMarked (lastListing patterns) i u →
      ∃ q, patterns[i]? = some q ∧ q.1 = u ∧ priorityOf .new patterns i = q.2 := by
    intro u i hmarked
    obtain ⟨q, hq, hword⟩ := listed_of_lastListing hmarked.mark_eq
    exact ⟨q, hq, hword, by rw [priorityOf, hq]; rfl⟩
  constructor
  · rintro ⟨hcaught, -⟩ p hp hcritical
    obtain ⟨u, i, hinfix, hmarked, hpriority⟩ := hcaught p hp hcritical
    rw [markOf_new] at hmarked
    obtain ⟨q, hq, rfl, heq⟩ := hlisted u i hmarked
    exact ⟨q, i, hinfix, hq, heq ▸ hpriority, hmarked⟩
  · intro h
    refine ⟨fun p hp hcritical => ?_, fun u i hmarked hpriority => ?_⟩
    · obtain ⟨q, i, hinfix, hq, hpriority, hmarked⟩ := h p hp hcritical
      refine ⟨q.1, i, hinfix, ?_, ?_⟩
      · rwa [markOf_new]
      · rw [priorityOf, hq]
        exact hpriority
    · rw [markOf_new] at hmarked
      obtain ⟨q, hq, rfl, heq⟩ := hlisted u i hmarked
      exact ⟨q, List.mem_of_getElem? hq, heq ▸ hpriority, List.infix_rfl⟩

/-- The bytes of an ASCII word. -/
def ascii (word : String) : List UInt8 := word.toList.map fun c => c.toUInt8

/-- A critical word and another one that does not end like it. -/
def plainList : List Pattern := [(ascii "hack", 3), (ascii "rally", 1)]

/-- Both sides of the theorem hold for that list. -/
theorem answersCritical_plainList :
    ∃ m', AhoCorasickMatcher.new.build plainList = some (true, m') ∧
      (AnswersCritical m' plainList ↔ CriticalFirst .new plainList) :=
  answersCritical_iff_criticalFirst .new
    ⟨by decide, by decide, by decide +kernel, by decide +kernel⟩

/-- A critical word whose ending is listed as uncritical. -/
def maskedList : List Pattern := [(ascii "ack", 1), (ascii "hack", 3)]

/-- **Critical keywords are missed.** -/
theorem not_forall_answersCritical :
    ¬ ∀ (m : AhoCorasickMatcher) (patterns : List Pattern), Built m → Admissible patterns →
      ∃ m', m.build patterns = some (true, m') ∧ AnswersCritical m' patterns := by
  intro h
  have hfits : Admissible maskedList :=
    ⟨by decide, by decide, by decide +kernel, by decide +kernel⟩
  obtain ⟨m', hbuild, hanswers⟩ := h .new maskedList .new hfits
  have hmissed : (AhoCorasickMatcher.new.build maskedList).bind
      (fun r => r.2.hasCritical (ascii "hack")) = some false := by decide +kernel
  rw [hbuild, Option.bind_some] at hmissed
  obtain ⟨b, hrun, hb⟩ := hanswers (ascii "hack")
  obtain rfl := Option.some.inj (hmissed.symm.trans hrun)
  exact absurd (hb.mpr ⟨(ascii "hack", 3), by decide, le_rfl, List.infix_rfl⟩) Bool.false_ne_true

end StopTrading.Events
