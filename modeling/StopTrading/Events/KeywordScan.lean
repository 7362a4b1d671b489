import StopTrading.Events.CriticalScan

/-!
# Which matches are recorded

`scan` writes a match into the buffer for every byte behind which it stands at a state with an
output, as long as there is room.  That is the case wherever a pattern ends, and the output is one
of the patterns that end there: the last listing of the shortest (`matchAt`).

`scan_reports` says so of every list of non-empty ASCII patterns that fits and every text, with a
buffer that has room for a match at every byte.

### What is load-bearing

With a buffer that is large enough the scan writes one match for each byte behind which it stands
at a state with an output.  The list of these matches is a function of the text (`matchesFrom`),
and the loop is shown to produce it from any byte on, with any matches before (`scanFrom_spec`).

Only one match per byte is reported, where several patterns may end.  So `Reports` asks for a
match at every place where one ends, which names one of them; to ask for all of them would be to
ask for something the buffer cannot hold.
-/

namespace StopTrading.Events

open SuffixLinks AhoCorasickMatcher

/-- `KeywordMatch`; `stop` is its `end`. -/
structure KeywordMatch where
  patternIdx : Nat
  start : Nat
  stop : Nat
  priority : Nat
  deriving Repr, DecidableEq

namespace AhoCorasickMatcher

/-- The match for an output behind the byte `i`.  Its start is an estimate. -/
def keywordMatch (m : AhoCorasickMatcher) (output i : Nat) : KeywordMatch where
  patternIdx := output
  start := i - 8
  stop := i + 1
  priority := m.priorities output

/-- The loop of `scan` from the byte `i` on, with the buffer and the number of matches in it. -/
def scanFrom (m : AhoCorasickMatcher) : (i state : Nat) → (bytes : List UInt8) →
    (buffer : List KeywordMatch) → (matchCount : Nat) → Option (Nat × List KeywordMatch)
  | _, _, [], buffer, matchCount => some (matchCount, buffer)
  | i, state, byte :: bytes, buffer, matchCount =>
      if byte.toNat ≥ alphabetSize then m.scanFrom (i + 1) 0 bytes buffer matchCount
      else
        (m.followFailure byte state).bind fun stop =>
          let next := m.transitions stop byte
          let state := if next ≠ 0 then next else stop
          let output := m.output state
          if output ≠ maxPatterns ∧ matchCount < buffer.length then
            m.scanFrom (i + 1) state bytes (buffer.set matchCount (m.keywordMatch output i))
              (matchCount + 1)
          else m.scanFrom (i + 1) state bytes buffer matchCount

/-- **`scan`**: the number of matches, and the buffer with them. -/
def scan (m : AhoCorasickMatcher) (text : List UInt8) (buffer : List KeywordMatch) :
    Option (Nat × List KeywordMatch) :=
  if !m.initialized then some (0, buffer) else m.scanFrom 0 0 text buffer 0

end AhoCorasickMatcher

/-! ## What is recorded -/

section Scan

variable {T : List (List UInt8)} {mark : List UInt8 → Option Nat} {m m₁ : AhoCorasickMatcher}

/-- The match behind a word that has been read. -/
def matchAt (mark : List UInt8 → Option Nat) (m : AhoCorasickMatcher) (w : List UInt8) :
    Option KeywordMatch :=
  (shortestMark mark w).map fun i => m.keywordMatch i (w.length - 1)

/-- The matches in the rest of a text, of which `w` has been read. -/
def matchesFrom (mark : List UInt8 → Option Nat) (m : AhoCorasickMatcher) :
    (w text : List UInt8) → List KeywordMatch
  | _, [] => []
  | w, c :: text => (matchAt mark m (w ++ [c])).toList ++ matchesFrom mark m (w ++ [c]) text

/-- A match belongs to a place in the text. -/
theorem mem_matchesFrom {w text : List UInt8} {k : KeywordMatch} :
    k ∈ matchesFrom mark m w text ↔
      ∃ v, v ≠ [] ∧ v <+: text ∧ matchAt mark m (w ++ v) = some k := by
  induction text generalizing w with
  | nil =>
      refine iff_of_false List.not_mem_nil ?_
      rintro ⟨v, hne, hv, -⟩
      exact hne (List.prefix_nil.mp hv)
  | cons c text ih =>
      rw [matchesFrom, List.mem_append, ih, Option.mem_toList]
      constructor
      · rintro (hhere | ⟨v, -, hv, hk⟩)
        · exact ⟨[c], List.cons_ne_nil _ _, List.cons_prefix_cons.mpr ⟨rfl, List.nil_prefix⟩, hhere⟩
        · rw [← List.append_cons w c v] at hk
          exact ⟨c :: v, List.cons_ne_nil _ _, List.cons_prefix_cons.mpr ⟨rfl, hv⟩, hk⟩
      · rintro ⟨v, hne, hv, hk⟩
        obtain ⟨a, v, rfl⟩ := List.exists_cons_of_ne_nil hne
        obtain ⟨rfl, htail⟩ := List.cons_prefix_cons.mp hv
        by_cases hnil : v = []
        · subst hnil
          exact Or.inl hk
        · rw [List.append_cons w a v] at hk
          exact Or.inr ⟨v, hnil, htail, hk⟩

/-- A match ends where it was found. -/
theorem stop_of_matchAt {w : List UInt8} {k : KeywordMatch} (hne : w ≠ [])
    (h : matchAt mark m w = some k) : k.stop = w.length := by
  obtain ⟨i, -, rfl⟩ := Option.map_eq_some_iff.mp h
  exact Nat.sub_add_cancel (List.length_pos_iff.mpr hne)

/-- Matches end behind what was read before, -/
theorem length_lt_stop {w text : List UInt8} {k : KeywordMatch}
    (h : k ∈ matchesFrom mark m w text) : w.length < k.stop := by
  obtain ⟨v, hne, -, hk⟩ := mem_matchesFrom.mp h
  rw [stop_of_matchAt (List.append_ne_nil_of_right_ne_nil w hne) hk, List.length_append]
  exact Nat.lt_add_of_pos_right (List.length_pos_iff.mpr hne)

/-- **The matches are in increasing order.** -/
theorem pairwise_matchesFrom (w text : List UInt8) :
    (matchesFrom mark m w text).Pairwise fun k k' => k.stop < k'.stop := by
  induction text generalizing w with
  | nil => exact List.Pairwise.nil
  | cons c text ih =>
      rw [matchesFrom, List.pairwise_append]
      refine ⟨?_, ih _, fun k hk k' hk' => ?_⟩
      · cases matchAt mark m (w ++ [c]) <;> simp
      · rw [Option.mem_toList] at hk
        have hne : w ++ [c] ≠ [] := List.append_ne_nil_of_right_ne_nil w (List.cons_ne_nil _ _)
        rw [stop_of_matchAt hne hk]
        exact length_lt_stop hk'

/-- and there is at most one for each byte. -/
theorem length_matchesFrom_le (w text : List UInt8) :
    (matchesFrom mark m w text).length ≤ text.length := by
  induction text generalizing w with
  | nil => exact le_rfl
  | cons c text ih =>
      rw [matchesFrom, List.length_append, List.length_cons]
      have hrest := ih (w ++ [c])
      cases matchAt mark m (w ++ [c]) with
      | none => simpa using hrest.trans (Nat.le_succ _)
      | some k =>
          rw [Option.toList_some, List.length_singleton]
          omega

/-- The output at the place after a word is that of the match there, if any. -/
theorem matchAt_eq (h : Linked T mark m₁ m) (hfits : Markable T mark) {s : Nat} {w : List UInt8}
    (hs : T[s]? = some (longestSuffix T w)) :
    matchAt mark m w =
      if m.output s ≠ maxPatterns then some (m.keywordMatch (m.output s) (w.length - 1))
      else none := by
  have houtput := h.output_eq hs
  rw [shortestMark_longestSuffix hfits.mark_notMem] at houtput
  have hempty := outputEntry_eq_iff hfits (w := w)
  rw [← houtput] at hempty
  unfold matchAt
  cases hmark : shortestMark mark w with
  | none =>
      rw [if_neg (not_not.mpr (hempty.mpr hmark))]
      rfl
  | some i =>
      have hsome : m.output s ≠ maxPatterns := fun heq => by
        rw [hempty.mp heq] at hmark
        cases hmark
      have hi : m.output s = i := by
        rw [houtput, hmark]
        rfl
      rw [if_pos hsome, hi]
      rfl

/-- A match is written behind those that are there. -/
theorem take_set_succ {buffer : List KeywordMatch} {n : Nat} (hn : n < buffer.length)
    (k : KeywordMatch) : (buffer.set n k).take (n + 1) = buffer.take n ++ [k] := by
  rw [List.take_add_one, List.take_set_of_le le_rfl, List.getElem?_set_self hn]
  rfl

/-- **The scan** from the place after a word `w`, with room for the rest of the text. -/
theorem scanFrom_spec (h : Linked T mark m₁ m) (hfits : Markable T mark) {state : Nat}
    {w : List UInt8} (hs : T[state]? = some (longestSuffix T w)) (text : List UInt8)
    {buffer : List KeywordMatch} {n : Nat} (hroom : n + text.length ≤ buffer.length) :
    ∃ out, m.scanFrom w.length state text buffer n =
        some (n + (matchesFrom mark m w text).length, out) ∧ out.length = buffer.length ∧
      out.take (n + (matchesFrom mark m w text).length) =
        buffer.take n ++ matchesFrom mark m w text := by
  induction text generalizing state w buffer n with
  | nil => exact ⟨buffer, rfl, rfl, (List.append_nil _).symm⟩
  | cons c text ih =>
      rw [List.length_cons] at hroom
      have hlength : (w ++ [c]).length = w.length + 1 := List.length_append
      rw [scanFrom, matchesFrom]
      split
      · rename_i hascii
        have hs' : T[0]? = some (longestSuffix T (w ++ [c])) := by
          rw [longestSuffix_nonAscii hfits w hascii]
          exact h.represents.root
        -- the root has no output
        have hnone : matchAt mark m (w ++ [c]) = none := by
          rw [matchAt_eq h hfits hs', h.root]
          exact if_neg (not_not.mpr rfl)
        rw [hnone, Option.toList_none, List.nil_append, ← hlength]
        exact ih hs' (by omega)
      · have hfuel : (longestSuffix T w).length < maxPatterns :=
          (h.represents.closed.length_lt (longestSuffix_mem h.represents.root_mem w)).trans_le
            hfits.room
        obtain ⟨stop, v, hwalk, hstop, -, hplace, hends⟩ :=
          follow_spec (c := c) h.represents (h.linkedUpTo _) hs le_rfl hfuel
        have hs' := place_of_stop h.represents hstop hends
        rw [← hplace, ← longestSuffix_append h.represents.closed] at hs'
        rw [followFailure, hwalk, Option.bind_some]
        dsimp only
        generalize (if m.transitions stop c ≠ 0 then m.transitions stop c else stop) = next at hs' ⊢
        have hhere := matchAt_eq h hfits hs'
        rw [hlength, Nat.add_sub_cancel] at hhere
        by_cases hout : m.output next ≠ maxPatterns
        · rw [if_pos hout] at hhere
          rw [if_pos ⟨hout, by omega⟩, hhere, ← hlength]
          have hroom' : n + 1 + text.length ≤
              (buffer.set n (m.keywordMatch (m.output next) w.length)).length := by
            rw [List.length_set]
            omega
          obtain ⟨out, hrun, hsize, htake⟩ := ih hs' hroom'
          have hcount : ∀ l : List KeywordMatch,
              n + ((some (m.keywordMatch (m.output next) w.length)).toList ++ l).length =
                n + 1 + l.length := fun l => by
            rw [List.length_append, Option.toList_some, List.length_singleton, Nat.add_assoc]
          refine ⟨out, ?_, ?_, ?_⟩
          · rw [hcount]
            exact hrun
          · rw [hsize, List.length_set]
          · rw [hcount, htake, take_set_succ (by omega), List.append_assoc]
            rfl
        · rw [if_neg hout] at hhere
          rw [if_neg fun hboth => hout hboth.1, hhere, Option.toList_none, List.nil_append,
            ← hlength]
          exact ih hs' (by omega)

end Scan

/-! ## Reports -/

/-- **What a scan reports of a text**: the matches are in increasing order, there is one for each
place where a pattern ends and for no other, and it names a pattern that ends there. -/
structure Reports (patterns : List Pattern) (text : List UInt8) (found : List KeywordMatch) :
    Prop where
  /-- matches come in the order of their ends -/
  increasing : found.Pairwise fun k k' => k.stop < k'.stop
  /-- one ends where a pattern ends, and nowhere else -/
  complete : ∀ e, (∃ k ∈ found, k.stop = e) ↔
    e ≤ text.length ∧ ∃ p ∈ patterns, p.1 <:+ text.take e
  /-- and names a pattern that does -/
  ends : ∀ k ∈ found, ∃ p, patterns[k.patternIdx]? = some p ∧ p.1 <:+ text.take k.stop

/-- A pattern that is listed is listed last somewhere. -/
theorem lastListing_ne_none {patterns : List Pattern} {p : Pattern} (hp : p ∈ patterns) :
    lastListing patterns p.1 ≠ none := by
  induction patterns using List.reverseRecOn with
  | nil => cases hp
  | append_singleton patterns q ih =>
      rw [lastListing_concat]
      split
      · exact Option.some_ne_none _
      · rename_i hne
        rcases List.mem_append.mp hp with hp | hq
        · exact ih hp
        · exact absurd (congrArg Prod.fst (List.mem_singleton.mp hq).symm) hne

section Reports

variable {patterns : List Pattern} {m : AhoCorasickMatcher}

/-- A match names a pattern that ends there, -/
theorem exists_listed_of_matchAt {w : List UInt8} {k : KeywordMatch}
    (h : matchAt (lastListing patterns) m w = some k) :
    ∃ p, patterns[k.patternIdx]? = some p ∧ p.1 <:+ w := by
  obtain ⟨i, hmark, rfl⟩ := Option.map_eq_some_iff.mp h
  obtain ⟨u, hu, hfirst⟩ := shortestMark_eq_some_iff.mp hmark
  obtain ⟨p, hp, rfl⟩ := listed_of_lastListing hfirst.mark_eq
  exact ⟨p, hp, hu⟩

/-- and where a pattern ends there is one. -/
theorem exists_matchAt {p : Pattern} (hp : p ∈ patterns) (hne : p.1 ≠ []) {w : List UInt8}
    (hw : p.1 <:+ w) : ∃ k, matchAt (lastListing patterns) m w = some k := by
  cases hmark : shortestMark (lastListing patterns) w with
  | none => exact absurd (shortestMark_eq_none_iff.mp hmark p.1 hne hw) (lastListing_ne_none hp)
  | some i => exact ⟨_, congrArg (Option.map _) hmark⟩

/-- **The matches report the patterns.** -/
theorem reports_matchesFrom (hnonempty : ∀ p ∈ patterns, p.1 ≠ []) (text : List UInt8) :
    Reports patterns text (matchesFrom (lastListing patterns) m [] text) := by
  have hplace : ∀ k ∈ matchesFrom (lastListing patterns) m [] text, k.stop ≤ text.length ∧
      matchAt (lastListing patterns) m (text.take k.stop) = some k := by
    intro k hk
    obtain ⟨v, hne, hv, hhere⟩ := mem_matchesFrom.mp hk
    rw [List.nil_append] at hhere
    rw [stop_of_matchAt hne hhere, ← List.prefix_iff_eq_take.mp hv]
    exact ⟨hv.length_le, hhere⟩
  refine ⟨pairwise_matchesFrom [] text, fun e => ⟨?_, ?_⟩, fun k hk => ?_⟩
  · rintro ⟨k, hk, rfl⟩
    obtain ⟨hle, hhere⟩ := hplace k hk
    obtain ⟨p, hp, hends⟩ := exists_listed_of_matchAt hhere
    exact ⟨hle, p, List.mem_of_getElem? hp, hends⟩
  · rintro ⟨hle, p, hp, hends⟩
    obtain ⟨k, hk⟩ := exists_matchAt (m := m) hp (hnonempty p hp) hends
    have hne : text.take e ≠ [] := by
      intro hnil
      rw [hnil, List.suffix_nil] at hends
      exact hnonempty p hp hends
    refine ⟨k, mem_matchesFrom.mpr ⟨text.take e, hne, List.take_prefix _ _, hk⟩, ?_⟩
    rw [stop_of_matchAt hne hk, List.length_take_of_le hle]
  · exact exists_listed_of_matchAt (hplace k hk).2

end Reports

/-- **`scan` reports every place where a keyword ends**, after `build` has accepted the keywords
into a fresh matcher. -/
theorem scan_reports (patterns : List Pattern) (hnonempty : ∀ p ∈ patterns, p.1 ≠ [])
    (hascii : ∀ p ∈ patterns, ∀ c ∈ p.1, c.toNat < alphabetSize)
    (hstates : (trieNodes patterns).length ≤ maxPatterns) :
    ∃ accepted m, AhoCorasickMatcher.new.build patterns = some (accepted, m) ∧
      (accepted = true ↔ patterns.length ≤ maxPatterns) ∧
      (accepted = true → ∀ (text : List UInt8) (buffer : List KeywordMatch),
        text.length ≤ buffer.length → ∃ matchCount out,
          m.scan text buffer = some (matchCount, out) ∧ matchCount ≤ text.length ∧
            Reports patterns text (out.take matchCount)) := by
  by_cases hcount : patterns.length ≤ maxPatterns
  · have hfits : Admissible patterns := ⟨hcount, hnonempty, hascii, hstates⟩
    obtain ⟨m₁, m, hbuild, hinit, hlinked, -⟩ := build_spec (m := .new) rfl hfits
    have hmarkable := markable (m := .new) rfl hfits
    rw [markOf_new] at hlinked hmarkable
    refine ⟨true, m, hbuild, iff_of_true rfl hcount, fun _ text buffer hroom => ?_⟩
    rw [← Nat.zero_add text.length] at hroom
    obtain ⟨out, hrun, -, htake⟩ :=
      scanFrom_spec hlinked hmarkable (w := []) hlinked.represents.root text hroom
    rw [Nat.zero_add] at hrun htake
    refine ⟨(matchesFrom (lastListing patterns) m [] text).length, out, ?_,
      length_matchesFrom_le [] text, ?_⟩
    · rw [scan, hinit, Bool.not_true, if_neg Bool.false_ne_true]
      exact hrun
    · rw [htake]
      exact reports_matchesFrom hnonempty text
  · refine ⟨false, .new, ?_, iff_of_false Bool.false_ne_true hcount,
      fun h => absurd h Bool.false_ne_true⟩
    rw [build, if_pos (Nat.lt_of_not_le hcount)]

/-- The two words of a list in which one ends the other. -/
theorem scan_reports_maskedList :
    ∃ accepted m, AhoCorasickMatcher.new.build maskedList = some (accepted, m) ∧
      (accepted = true ↔ maskedList.length ≤ maxPatterns) ∧
      (accepted = true → ∀ (text : List UInt8) (buffer : List KeywordMatch),
        text.length ≤ buffer.length → ∃ matchCount out,
          m.scan text buffer = some (matchCount, out) ∧ matchCount ≤ text.length ∧
            Reports maskedList text (out.take matchCount)) :=
  scan_reports maskedList (by decide) (by decide +kernel) (by decide +kernel)

end StopTrading.Events
