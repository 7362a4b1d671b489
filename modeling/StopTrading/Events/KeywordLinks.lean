import StopTrading.Events.KeywordMatcher
import Mathlib.Data.List.Nodup

/-!
# Phase 2: failure links and merged outputs

The breadth-first loop of `build_failure_links` over a trie `T` whose states carry the
marks that phase 1 left in the output table.  It links every state to the longest
proper suffix of its word, and replaces its output by that of the linked state, if that
has one.

* `LinkedAt` — what the loop establishes for a state; the merged output is the mark of
  the shortest marked suffix.
* `linkChild_spec`, `linkChildren_spec` — one child, and all children of a state.
* `Frontier` — the invariant of the queue: shorter words come first, and a word not
  queued yet is longer than the one at the head (`Frontier.complete`).
* `exists_linked` — the loop ends, with all states linked.

### What is load-bearing

The order of the queue.  A state can be linked only if all states with shorter words are, since
its link is found by following links of its parent; and the merged output of the link has to be
final, since it is copied.  Both need that words come in the order of their lengths, and that no
word of the length of the head is still missing.  The latter is `complete`, an induction along
the prefixes of the missing word: one of them is in the queue and behind the head, or its parent
is before it.

A child is linked by a walk that stops at the first state with an edge for its character, or at
the root, and the source excludes the child itself as a target.  For children of the root this
matters; for the others the walk starts at the link of the parent, which is shorter, and cannot
get there.
-/

namespace StopTrading.Events

open SuffixLinks AhoCorasickMatcher

/-- A trie that fits the tables, and marks of some of its words other than the root. -/
structure Markable (T : List (List UInt8)) (mark : List UInt8 → Option Nat) : Prop where
  /-- the states fit the tables -/
  room : T.length ≤ maxPatterns
  /-- and their words the alphabet -/
  ascii : ∀ w ∈ T, ∀ c ∈ w, c.toNat < alphabetSize
  /-- the root has no mark -/
  mark_root : mark [] = none
  /-- no mark is the value for none -/
  mark_ne : ∀ {w i}, mark w = some i → i ≠ maxPatterns
  /-- and only states have marks -/
  mark_notMem : ∀ w, w ∉ T → mark w = none

/-- The entry of the output table for a mark. -/
def outputEntry (mark : Option Nat) : Nat := mark.getD maxPatterns

/-- **A state is linked**: to its longest proper suffix, with the output of its shortest
marked suffix. -/
structure LinkedAt (T : List (List UInt8)) (mark : List UInt8 → Option Nat)
    (m : AhoCorasickMatcher) (s : Nat) (w : List UInt8) : Prop where
  /-- the link is the longest proper suffix -/
  failure : T[m.failure s]? = some (longestSuffix T w.tail)
  /-- the output is that of the shortest marked suffix -/
  output : m.output s = outputEntry (shortestMark mark w)

/-- The matcher `m'` is `m` but for the links and outputs of the states in `S`. -/
structure Relinked (m m' : AhoCorasickMatcher) (S : List Nat) : Prop where
  /-- the trie is the same -/
  transitions : m'.transitions = m.transitions
  /-- and so are the priorities -/
  priorities : m'.priorities = m.priorities
  /-- other links stay -/
  failure : ∀ s, s ∉ S → m'.failure s = m.failure s
  /-- and so do other outputs -/
  output : ∀ s, s ∉ S → m'.output s = m.output s

/-- Some states have been linked, and then some others. -/
theorem Relinked.trans {m m' m'' : AhoCorasickMatcher} {S S' : List Nat}
    (h : Relinked m m' S) (h' : Relinked m' m'' S') : Relinked m m'' (S ++ S') where
  transitions := h'.transitions.trans h.transitions
  priorities := h'.priorities.trans h.priorities
  failure := fun s hs =>
    (h'.failure s fun hmem => hs (List.mem_append_right _ hmem)).trans
      (h.failure s fun hmem => hs (List.mem_append_left _ hmem))
  output := fun s hs =>
    (h'.output s fun hmem => hs (List.mem_append_right _ hmem)).trans
      (h.output s fun hmem => hs (List.mem_append_left _ hmem))

/-- The alphabet are the ASCII characters, -/
theorem mem_alphabet {c : UInt8} : c ∈ alphabet ↔ c.toNat < alphabetSize := by
  unfold alphabet
  rw [List.mem_map]
  constructor
  · rintro ⟨n, hn, rfl⟩
    rw [List.mem_range, alphabetSize] at hn
    rw [UInt8.toNat_ofNat', alphabetSize]
    omega
  · intro hc
    exact ⟨c.toNat, List.mem_range.mpr hc, UInt8.ofNat_toNat⟩

/-- each once. -/
theorem nodup_alphabet : alphabet.Nodup := by
  refine List.Nodup.map_on (fun i hi j hj heq => ?_) List.nodup_range
  rw [List.mem_range, alphabetSize] at hi hj
  have hnat := congrArg UInt8.toNat heq
  rw [UInt8.toNat_ofNat', UInt8.toNat_ofNat'] at hnat
  omega

variable {T : List (List UInt8)} {mark : List UInt8 → Option Nat} {m m' : AhoCorasickMatcher}

/-- Linking other states leaves a state linked. -/
theorem LinkedAt.of_relinked {S : List Nat} (h : Relinked m m' S) {s : Nat} (hs : s ∉ S)
    {w : List UInt8} (hlinked : LinkedAt T mark m s w) : LinkedAt T mark m' s w where
  failure := by rw [h.failure s hs]; exact hlinked.failure
  output := (h.output s hs).trans hlinked.output

/-! ## Children -/

/-- The children of a state are the ends of its edges. -/
theorem mem_childrenOf {r s : Nat} {cs : List UInt8} :
    s ∈ m.childrenOf r cs ↔ s ≠ 0 ∧ ∃ c ∈ cs, m.transitions r c = s := by
  unfold childrenOf
  rw [List.mem_filter, List.mem_map, decide_eq_true_iff, and_comm]

theorem childrenOf_cons_of_ne {r : Nat} {c : UInt8} {cs : List UInt8}
    (h : m.transitions r c ≠ 0) :
    m.childrenOf r (c :: cs) = m.transitions r c :: m.childrenOf r cs := by
  simp [childrenOf, h]

theorem childrenOf_cons_of_eq {r : Nat} {c : UInt8} {cs : List UInt8}
    (h : m.transitions r c = 0) : m.childrenOf r (c :: cs) = m.childrenOf r cs := by
  simp [childrenOf, h]

theorem childrenOf_congr (h : m'.transitions = m.transitions) (r : Nat) (cs : List UInt8) :
    m'.childrenOf r cs = m.childrenOf r cs := by
  unfold childrenOf
  rw [h]

/-- Edges for different characters lead to different states. -/
theorem edge_inj (hT : Represents T m.transitions) {r : Nat} {w : List UInt8}
    (hr : T[r]? = some w) {c d : UInt8} (hc : m.transitions r c ≠ 0)
    (heq : m.transitions r c = m.transitions r d) : c = d := by
  have hwc := hT.edge hr hc
  have hwd := hT.edge hr (heq ▸ hc)
  rw [heq, hwd] at hwc
  exact (List.cons.inj (List.append_cancel_left (Option.some.inj hwc))).1.symm

theorem nodup_childrenOf (hT : Represents T m.transitions) {r : Nat} {w : List UInt8}
    (hr : T[r]? = some w) {cs : List UInt8} (hcs : cs.Nodup) : (m.childrenOf r cs).Nodup := by
  unfold childrenOf
  rw [List.filter_map]
  refine List.Nodup.map_on (fun c hc d _ heq => ?_) (hcs.filter _)
  exact edge_inj hT hr (of_decide_eq_true (List.mem_filter.mp hc).2) heq

/-- The children of a state are the states whose words are longer by one character. -/
theorem mem_childrenOf_alphabet (hT : Represents T m.transitions) (hfits : Markable T mark)
    {r s : Nat} {w : List UInt8} (hr : T[r]? = some w) :
    s ∈ m.childrenOf r alphabet ↔ ∃ c, T[s]? = some (w ++ [c]) := by
  rw [mem_childrenOf]
  constructor
  · rintro ⟨hne, c, -, rfl⟩
    exact ⟨c, hT.edge hr hne⟩
  · rintro ⟨c, hs⟩
    have hne : m.transitions r c ≠ 0 := fun hgap => hT.gap hr hgap (List.mem_of_getElem? hs)
    have hstate := hT.state_inj (hT.edge hr hne) hs
    refine ⟨hstate ▸ hne, c, ?_, hstate⟩
    exact mem_alphabet.mpr (hfits.ascii _ (List.mem_of_getElem? hs) c (by simp))

/-- All states with words up to length `k` are linked, and the root has no output. -/
structure LinksUpTo (T : List (List UInt8)) (mark : List UInt8 → Option Nat)
    (m : AhoCorasickMatcher) (k : Nat) : Prop where
  /-- the root has no output -/
  root : m.output 0 = maxPatterns
  /-- short words are linked -/
  linked : ∀ s w, T[s]? = some w → w ≠ [] → w.length ≤ k → LinkedAt T mark m s w

/-- The output of a short word is that of its shortest marked suffix. -/
theorem LinksUpTo.output_eq (h : LinksUpTo T mark m k) (hT : Represents T m.transitions)
    {s : Nat} {w : List UInt8} (hs : T[s]? = some w) (hk : w.length ≤ k) :
    m.output s = outputEntry (shortestMark mark w) := by
  by_cases hne : w = []
  · subst hne
    rw [(hT.eq_zero_iff hs).mpr rfl]
    exact h.root
  · exact (h.linked s w hs hne hk).output

/-- Only a word without a mark has no entry. -/
theorem outputEntry_eq_iff (hfits : Markable T mark) {w : List UInt8} :
    outputEntry (shortestMark mark w) = maxPatterns ↔ shortestMark mark w = none := by
  cases hmark : shortestMark mark w with
  | none => exact iff_of_true rfl rfl
  | some i =>
      obtain ⟨u, -, hfirst⟩ := shortestMark_eq_some_iff.mp hmark
      exact iff_of_false (hfits.mark_ne hfirst.mark_eq) (Option.some_ne_none i)

/-- A link changes the state that it is set for. -/
theorem relinked_linkTo (m : AhoCorasickMatcher) (s link : Nat) :
    Relinked m (m.linkTo s link) [s] where
  transitions := rfl
  priorities := rfl
  failure := fun _ ht => Function.update_of_ne (List.mem_singleton.not.mp ht) _ _
  output := fun _ ht => Function.update_of_ne (List.mem_singleton.not.mp ht) _ _

/-- A state is linked by a link to its longest proper suffix, whose output is right. -/
theorem linkedAt_linkTo (hfits : Markable T mark) {s link : Nat} {a : UInt8} {w : List UInt8}
    (hlink : T[link]? = some (longestSuffix T w))
    (houtput : m.output link = outputEntry (shortestMark mark (longestSuffix T w)))
    (hown : m.output s = outputEntry (mark (a :: w))) :
    LinkedAt T mark (m.linkTo s link) s (a :: w) := by
  rw [shortestMark_longestSuffix hfits.mark_notMem] at houtput
  constructor
  · change T[Function.update m.failure s link s]? = _
    rw [Function.update_self]
    exact hlink
  · change Function.update m.output s _ s = _
    rw [Function.update_self, houtput, hown, shortestMark]
    cases hmark : shortestMark mark w with
    | none => exact if_neg (not_not.mpr rfl)
    | some i =>
        have hentry := (outputEntry_eq_iff hfits).not.mpr (hmark ▸ Option.some_ne_none i)
        rw [hmark] at hentry
        exact if_pos hentry

/-- **A child is linked** when all states of the length of its parent are. -/
theorem linkChild_spec (hT : Represents T m.transitions) (hfits : Markable T mark)
    {r : Nat} {w : List UInt8} (hr : T[r]? = some w) (hne : w ≠ [])
    (hup : LinksUpTo T mark m w.length) (queue : List Nat) {c : UInt8}
    (hedge : m.transitions r c ≠ 0)
    (hown : m.output (m.transitions r c) = outputEntry (mark (w ++ [c]))) :
    ∃ m', linkChild r (m, queue) c = some (m', queue ++ [m.transitions r c]) ∧
      Relinked m m' [m.transitions r c] ∧
      LinkedAt T mark m' (m.transitions r c) (w ++ [c]) := by
  have hchild := hT.edge hr hedge
  obtain ⟨a, u, rfl⟩ := List.exists_cons_of_ne_nil hne
  have hfail := (hup.linked r _ hr hne le_rfl).failure
  rw [List.tail_cons] at hfail
  have hshort := length_longestSuffix_le (T := T) u
  have hfuel : (longestSuffix T u).length < maxPatterns :=
    (hT.closed.length_lt (longestSuffix_mem hT.root_mem u)).trans_le hfits.room
  have hlinks : LinkedUpTo T m.failure u.length := fun s v hs hv hk =>
    (hup.linked s v hs hv (by rw [List.length_cons]; omega)).failure
  obtain ⟨stop, v, hwalk, hstop, hv, hplace, hends⟩ :=
    follow_spec (c := c) hT hlinks hfail hshort hfuel
  -- the walk starts below the parent, so its edge cannot lead to the child itself
  have hlink : (if m.transitions stop c ≠ 0 ∧ m.transitions stop c ≠ m.transitions r c then
      m.transitions stop c else 0) =
      if m.transitions stop c ≠ 0 then m.transitions stop c else stop := by
    by_cases hgap : m.transitions stop c = 0
    · rw [if_neg (fun h => h.1 hgap), if_neg (not_not.mpr hgap)]
      exact (hends.resolve_right (not_not.mpr hgap)).symm
    · have hother : m.transitions stop c ≠ m.transitions r c := by
        intro heq
        have hsame := hT.edge hstop hgap
        rw [heq, hchild] at hsame
        have hlength := congrArg List.length (Option.some.inj hsame)
        simp only [List.length_append, List.length_cons, List.length_nil] at hlength
        omega
      rw [if_pos ⟨hgap, hother⟩, if_pos hgap]
  have htarget := place_of_stop hT hstop hends
  rw [← hplace, ← longestSuffix_append hT.closed, ← hlink] at htarget
  have hlength := length_longestSuffix_le (T := T) (u ++ [c])
  rw [List.length_append, List.length_singleton] at hlength
  have houtput := hup.output_eq hT htarget hlength
  refine ⟨_, ?_, relinked_linkTo m _ _, linkedAt_linkTo hfits htarget houtput hown⟩
  unfold linkChild followFailure
  simp only [if_pos hedge, hwalk, Option.map_some]

/-- A new link of a child leaves the states of the length of its parent alone. -/
theorem LinksUpTo.of_relinked {r : Nat} {w : List UInt8} (hup : LinksUpTo T mark m w.length)
    (hT : Represents T m.transitions) (hr : T[r]? = some w) {c : UInt8}
    (hedge : m.transitions r c ≠ 0) (h : Relinked m m' [m.transitions r c]) :
    LinksUpTo T mark m' w.length where
  root := (h.output 0 fun hmem => hedge (List.mem_singleton.mp hmem).symm).trans hup.root
  linked := fun s v hs hv hk => by
    refine (hup.linked s v hs hv hk).of_relinked h fun hmem => ?_
    rw [List.mem_singleton.mp hmem, hT.edge hr hedge] at hs
    rw [← Option.some.inj hs, List.length_append, List.length_singleton] at hk
    omega

/-- **All children of a state are linked**, and queued in the order of their
characters. -/
theorem linkChildren_spec (hT : Represents T m.transitions) (hfits : Markable T mark)
    {r : Nat} {w : List UInt8} (hr : T[r]? = some w) (hne : w ≠ [])
    (hup : LinksUpTo T mark m w.length) {cs : List UInt8} (hcs : cs.Nodup)
    (hown : ∀ c ∈ cs, m.transitions r c ≠ 0 →
      m.output (m.transitions r c) = outputEntry (mark (w ++ [c]))) (queue : List Nat) :
    ∃ m', cs.foldlM (linkChild r) (m, queue) = some (m', queue ++ m.childrenOf r cs) ∧
      Relinked m m' (m.childrenOf r cs) ∧
      ∀ c ∈ cs, m.transitions r c ≠ 0 →
        LinkedAt T mark m' (m.transitions r c) (w ++ [c]) := by
  induction cs generalizing m queue with
  | nil =>
      refine ⟨m, ?_, ⟨rfl, rfl, fun _ _ => rfl, fun _ _ => rfl⟩, List.forall_mem_nil _⟩
      rw [childrenOf, List.map_nil, List.filter_nil, List.append_nil]
      rfl
  | cons c cs ih =>
      rw [List.nodup_cons] at hcs
      by_cases hgap : m.transitions r c = 0
      · obtain ⟨m', hrun, hrelinked, hlinked⟩ :=
          ih hT hup hcs.2 (fun d hd => hown d (List.mem_cons_of_mem c hd)) queue
        refine ⟨m', ?_, ?_, ?_⟩
        · rw [List.foldlM_cons, linkChild, if_neg (not_not.mpr hgap), childrenOf_cons_of_eq hgap]
          exact hrun
        · rwa [childrenOf_cons_of_eq hgap]
        · rw [List.forall_mem_cons]
          exact ⟨fun hedge => absurd hgap hedge, hlinked⟩
      · obtain ⟨m₁, hstep, hrelinked, hlinked⟩ := linkChild_spec hT hfits hr hne hup queue hgap
          (hown c List.mem_cons_self hgap)
        have hT₁ : Represents T m₁.transitions := by rwa [hrelinked.transitions]
        -- the children still to come are other states, so nothing has changed for them
        have hother : ∀ d ∈ cs, m.transitions r d ≠ 0 →
            m.transitions r d ∉ [m.transitions r c] := by
          intro d hd hedge hmem
          obtain rfl := edge_inj hT hr hedge (List.mem_singleton.mp hmem)
          exact hcs.1 hd
        have hown₁ : ∀ d ∈ cs, m₁.transitions r d ≠ 0 →
            m₁.output (m₁.transitions r d) = outputEntry (mark (w ++ [d])) := by
          rw [hrelinked.transitions]
          intro d hd hedge
          rw [hrelinked.output _ (hother d hd hedge)]
          exact hown d (List.mem_cons_of_mem c hd) hedge
        obtain ⟨m', hrun, hrelinked', hlinked'⟩ :=
          ih hT₁ (hup.of_relinked hT hr hgap hrelinked) hcs.2 hown₁ (queue ++ [m.transitions r c])
        rw [childrenOf_congr hrelinked.transitions] at hrun hrelinked'
        rw [hrelinked.transitions] at hlinked'
        refine ⟨m', ?_, ?_, ?_⟩
        · rw [List.foldlM_cons, hstep, childrenOf_cons_of_ne hgap,
            List.append_cons queue (m.transitions r c) (m.childrenOf r cs)]
          exact hrun
        · rw [childrenOf_cons_of_ne hgap]
          exact hrelinked.trans hrelinked'
        · rw [List.forall_mem_cons]
          refine ⟨fun _ => hlinked.of_relinked hrelinked' fun hmem => ?_, hlinked'⟩
          obtain ⟨-, d, hd, heq⟩ := mem_childrenOf.mp hmem
          obtain rfl := edge_inj hT hr hgap heq.symm
          exact hcs.1 hd

/-! ## The queue -/

/-- The length of the word of a state. -/
def depth (T : List (List UInt8)) (s : Nat) : Nat := (T[s]?.getD []).length

/-- The depth of a state is the length of its word, -/
theorem depth_eq {s : Nat} {w : List UInt8} (hs : T[s]? = some w) : depth T s = w.length := by
  rw [depth, hs, Option.getD_some]

/-- and that of its children one more. -/
theorem depth_childrenOf (hT : Represents T m.transitions) (hfits : Markable T mark) {r : Nat}
    {w : List UInt8} (hr : T[r]? = some w) :
    ∀ s ∈ m.childrenOf r alphabet, depth T s = w.length + 1 := by
  intro s hs
  obtain ⟨c, hc⟩ := (mem_childrenOf_alphabet hT hfits hr).mp hs
  rw [depth_eq hc, List.length_append, List.length_singleton]

/-- Words of one length come in order. -/
theorem pairwise_depth {states : List Nat} {k : Nat} (h : ∀ s ∈ states, depth T s = k) :
    states.Pairwise fun s t => depth T s ≤ depth T t := by
  refine List.Pairwise.imp_of_mem (R := fun _ _ => True) (fun hs ht _ => ?_)
    (List.pairwise_of_forall fun _ _ => trivial)
  rw [h _ hs, h _ ht]

/-- The head has yet to be processed. -/
theorem mem_drop_of_head {queue : List Nat} {head r : Nat} (hhead : queue[head]? = some r) :
    r ∈ queue.drop head := by
  obtain ⟨hlt, rfl⟩ := List.getElem?_eq_some_iff.mp hhead
  rw [List.drop_eq_getElem_cons hlt]
  exact List.mem_cons_self

/-- **The breadth-first loop** with the queue it has built and the position of its head:
what is queued is linked, what is before the head has all of its children queued, and
words come in the order of their lengths. -/
structure Frontier (T : List (List UInt8)) (mark : List UInt8 → Option Nat)
    (m : AhoCorasickMatcher) (queue : List Nat) (head : Nat) : Prop where
  /-- the tables are those of the trie -/
  represents : Represents T m.transitions
  /-- no state is queued twice -/
  nodup : queue.Nodup
  /-- and the root never -/
  nodes : ∀ s ∈ queue, ∃ w, T[s]? = some w ∧ w ≠ []
  /-- the children of the root are -/
  roots : ∀ s c, T[s]? = some [c] → s ∈ queue
  /-- and so are those of what was processed -/
  children : ∀ r ∈ queue.take head, ∀ w c s, T[r]? = some w → T[s]? = some (w ++ [c]) → s ∈ queue
  /-- all others wait for their parent -/
  parents : ∀ s ∈ queue, ∀ w c, T[s]? = some (w ++ [c]) → w ≠ [] →
    ∃ r ∈ queue.take head, T[r]? = some w
  /-- short words come first -/
  sorted : queue.Pairwise fun s t => depth T s ≤ depth T t
  /-- none is longer than a child of one that waits -/
  levels : ∀ r ∈ queue.drop head, ∀ s ∈ queue, depth T s ≤ depth T r + 1
  /-- what is queued is linked -/
  linked : ∀ s ∈ queue, ∀ w, T[s]? = some w → LinkedAt T mark m s w
  /-- and the rest has the output of phase 1 -/
  unlinked : ∀ s, s ∉ queue → ∀ w, T[s]? = some w → m.output s = outputEntry (mark w)

namespace Frontier

variable {queue : List Nat} {head : Nat}

/-- The root is not queued, -/
theorem zero_notMem (h : Frontier T mark m queue head) : 0 ∉ queue := by
  intro hmem
  obtain ⟨w, hw, hne⟩ := h.nodes 0 hmem
  exact hne (Option.some.inj (hw.symm.trans h.represents.root))

/-- and has no output. -/
theorem output_root (h : Frontier T mark m queue head) (hfits : Markable T mark) :
    m.output 0 = maxPatterns := by
  rw [h.unlinked 0 h.zero_notMem [] h.represents.root, hfits.mark_root]
  rfl

/-- The queue never holds more than there are states besides the root. -/
theorem length_lt (h : Frontier T mark m queue head) (hfits : Markable T mark) :
    queue.length < maxPatterns := by
  have hnodup : (0 :: queue).Nodup := List.nodup_cons.mpr ⟨h.zero_notMem, h.nodup⟩
  have hsubset : 0 :: queue ⊆ List.range T.length := by
    rw [List.cons_subset]
    refine ⟨List.mem_range.mpr (List.getElem?_eq_some_iff.mp h.represents.root).1, fun s hs => ?_⟩
    obtain ⟨w, hw, -⟩ := h.nodes s hs
    exact List.mem_range.mpr (List.getElem?_eq_some_iff.mp hw).1
  have hle := hnodup.length_le_of_subset hsubset
  rw [List.length_cons, List.length_range] at hle
  exact hle.trans hfits.room

/-- **A word not queued yet is longer** than one between the head and the end. -/
theorem complete (h : Frontier T mark m queue head) {s : Nat} {w : List UInt8}
    (hs : T[s]? = some w) (hne : w ≠ []) :
    s ∈ queue ∨ ∃ r ∈ queue.drop head, depth T r < w.length := by
  induction w using List.reverseRecOn generalizing s with
  | nil => exact absurd rfl hne
  | append_singleton w c ih =>
      rw [List.length_append, List.length_singleton]
      by_cases hw : w = []
      · subst hw
        exact Or.inl (h.roots s c hs)
      · obtain ⟨t, ht⟩ := List.mem_iff_getElem?.mp
          (h.represents.closed w c (List.mem_of_getElem? hs))
        rcases ih ht hw with hmem | ⟨r, hr, hlt⟩
        · rw [← List.take_append_drop head queue, List.mem_append] at hmem
          rcases hmem with hmem | hmem
          · exact Or.inl (h.children t hmem w c s ht hs)
          · exact Or.inr ⟨t, hmem, by rw [depth_eq ht]; exact Nat.lt_succ_self _⟩
        · exact Or.inr ⟨r, hr, Nat.lt_succ_of_lt hlt⟩

/-- The head is a shortest of what is still queued. -/
theorem depth_head_le (h : Frontier T mark m queue head) {r : Nat}
    (hhead : queue[head]? = some r) : ∀ t ∈ queue.drop head, depth T r ≤ depth T t := by
  obtain ⟨hlt, rfl⟩ := List.getElem?_eq_some_iff.mp hhead
  have hsorted := h.sorted.sublist (List.drop_sublist head queue)
  rw [List.drop_eq_getElem_cons hlt, List.pairwise_cons] at hsorted
  rw [List.drop_eq_getElem_cons hlt, List.forall_mem_cons]
  exact ⟨le_rfl, hsorted.1⟩

/-- All states of the length of the head's word are linked. -/
theorem linksUpTo (h : Frontier T mark m queue head) (hfits : Markable T mark) {r : Nat}
    {w : List UInt8} (hhead : queue[head]? = some r) (hr : T[r]? = some w) :
    LinksUpTo T mark m w.length where
  root := h.output_root hfits
  linked := fun s v hs hv hk => by
    rcases h.complete hs hv with hmem | ⟨t, ht, hlt⟩
    · exact h.linked s hmem v hs
    · have hle := h.depth_head_le hhead t ht
      rw [depth_eq hr] at hle
      exact absurd (hle.trans_lt hlt) (Nat.not_lt.mpr hk)

/-- A child of the head is not queued. -/
theorem child_notMem (h : Frontier T mark m queue head) {r s : Nat} {w : List UInt8} {c : UInt8}
    (hhead : queue[head]? = some r) (hr : T[r]? = some w) (hne : w ≠ [])
    (hs : T[s]? = some (w ++ [c])) : s ∉ queue := by
  intro hmem
  obtain ⟨t, ht, htw⟩ := h.parents s hmem w c hs hne
  obtain rfl := h.represents.state_inj htw hr
  exact List.disjoint_take_drop h.nodup le_rfl ht (mem_drop_of_head hhead)

/-- **The head is processed**: its children are linked and queued. -/
theorem step (h : Frontier T mark m queue head) (hfits : Markable T mark) {r : Nat}
    (hhead : queue[head]? = some r) :
    ∃ m', alphabet.foldlM (linkChild r) (m, queue) =
        some (m', queue ++ m.childrenOf r alphabet) ∧
      m'.priorities = m.priorities ∧
      Frontier T mark m' (queue ++ m.childrenOf r alphabet) (head + 1) := by
  obtain ⟨w, hr, hne⟩ := h.nodes r (List.mem_of_getElem? hhead)
  have hT := h.represents
  have hkids : ∀ s, s ∈ m.childrenOf r alphabet ↔ ∃ c, T[s]? = some (w ++ [c]) :=
    fun s => mem_childrenOf_alphabet hT hfits hr
  have hfresh : ∀ s ∈ m.childrenOf r alphabet, s ∉ queue := by
    intro s hs
    obtain ⟨c, hc⟩ := (hkids s).mp hs
    exact h.child_notMem hhead hr hne hc
  have hown : ∀ c ∈ alphabet, m.transitions r c ≠ 0 →
      m.output (m.transitions r c) = outputEntry (mark (w ++ [c])) := fun c _ hedge =>
    h.unlinked _ (h.child_notMem hhead hr hne (hT.edge hr hedge)) _ (hT.edge hr hedge)
  obtain ⟨m', hrun, hrelinked, hlinked⟩ := linkChildren_spec hT hfits hr hne
    (h.linksUpTo hfits hhead hr) nodup_alphabet hown queue
  have hlt := (List.getElem?_eq_some_iff.mp hhead).1
  have hdepth := depth_childrenOf hT hfits hr
  have hlevel : ∀ s ∈ queue, depth T s ≤ w.length + 1 := by
    intro s hs
    rw [← depth_eq hr]
    exact h.levels r (mem_drop_of_head hhead) s hs
  have htake : (queue ++ m.childrenOf r alphabet).take (head + 1) = queue.take head ++ [r] := by
    rw [List.take_append_of_le_length hlt, List.take_add_one, hhead, Option.toList_some]
  refine ⟨m', hrun, hrelinked.priorities, ?_⟩
  constructor
  case represents => rwa [hrelinked.transitions]
  case nodup =>
    refine h.nodup.append (nodup_childrenOf hT hr nodup_alphabet) fun s hs hkid => ?_
    exact hfresh s hkid hs
  case nodes =>
    rw [List.forall_mem_append]
    refine ⟨h.nodes, fun s hs => ?_⟩
    obtain ⟨c, hc⟩ := (hkids s).mp hs
    exact ⟨_, hc, List.append_ne_nil_of_right_ne_nil _ (List.cons_ne_nil _ _)⟩
  case roots => exact fun s c hs => List.mem_append_left _ (h.roots s c hs)
  case children =>
    rw [htake, List.forall_mem_append, List.forall_mem_singleton]
    refine ⟨fun t ht v c s htv hs => List.mem_append_left _ (h.children t ht v c s htv hs),
      fun v c s hrv hs => List.mem_append_right _ ?_⟩
    obtain rfl := Option.some.inj (hr.symm.trans hrv)
    exact (hkids s).mpr ⟨c, hs⟩
  case parents =>
    rw [htake, List.forall_mem_append]
    constructor
    · intro s hs v c hsv hv
      obtain ⟨t, ht, htv⟩ := h.parents s hs v c hsv hv
      exact ⟨t, List.mem_append_left _ ht, htv⟩
    · intro s hs v c hsv _
      obtain ⟨d, hd⟩ := (hkids s).mp hs
      have hword := (List.append_inj' (Option.some.inj (hd.symm.trans hsv)) rfl).1
      exact ⟨r, List.mem_append_right _ List.mem_cons_self, hword ▸ hr⟩
  case sorted =>
    rw [List.pairwise_append]
    refine ⟨h.sorted, pairwise_depth hdepth, fun s hs t ht => ?_⟩
    rw [hdepth t ht]
    exact hlevel s hs
  case levels =>
    -- what is left in the queue is no shorter than the head
    have hnext : ∀ t ∈ (queue ++ m.childrenOf r alphabet).drop (head + 1),
        w.length ≤ depth T t := by
      rw [List.drop_append_of_le_length hlt, List.forall_mem_append]
      refine ⟨fun t ht => ?_, fun t ht => by rw [hdepth t ht]; exact Nat.le_succ _⟩
      rw [← depth_eq hr]
      refine h.depth_head_le hhead t ?_
      rw [List.drop_eq_getElem_cons hlt]
      exact List.mem_cons_of_mem _ ht
    intro t ht s hs
    have hle : depth T s ≤ w.length + 1 := by
      rcases List.mem_append.mp hs with hs | hs
      · exact hlevel s hs
      · exact (hdepth s hs).le
    exact hle.trans (Nat.succ_le_succ (hnext t ht))
  case linked =>
    rw [List.forall_mem_append]
    refine ⟨fun s hs v hv => ?_, fun s hs v hv => ?_⟩
    · exact (h.linked s hs v hv).of_relinked hrelinked fun hkid => hfresh s hkid hs
    · obtain ⟨hs0, c, hc, rfl⟩ := mem_childrenOf.mp hs
      rw [← Option.some.inj ((hT.edge hr hs0).symm.trans hv)]
      exact hlinked c hc hs0
  case unlinked =>
    intro s hs v hv
    rw [List.mem_append, not_or] at hs
    rw [hrelinked.output s hs.2]
    exact h.unlinked s hs.1 v hv

end Frontier

variable {queue : List Nat} {head : Nat}

/-- **All states are linked**, the root has no output, and the priorities are `m`'s. -/
structure Linked (T : List (List UInt8)) (mark : List UInt8 → Option Nat)
    (m m' : AhoCorasickMatcher) : Prop where
  /-- the tables are those of the trie -/
  represents : Represents T m'.transitions
  /-- the root has no output -/
  root : m'.output 0 = maxPatterns
  /-- all other states are linked -/
  linked : ∀ s w, T[s]? = some w → w ≠ [] → LinkedAt T mark m' s w
  /-- with the priorities they had -/
  priorities : m'.priorities = m.priorities

/-- **When the queue is used up**, every state is linked. -/
theorem Frontier.finished (h : Frontier T mark m queue head) (hfits : Markable T mark)
    (hend : queue[head]? = none) : Linked T mark m m where
  represents := h.represents
  root := h.output_root hfits
  linked := fun s w hs hne => by
    rcases h.complete hs hne with hmem | ⟨r, hr, -⟩
    · exact h.linked s hmem w hs
    · rw [List.drop_eq_nil_of_le (List.getElem?_eq_none_iff.mp hend)] at hr
      cases hr
  priorities := rfl

/-- The loop ends at the end of the queue, -/
theorem linkStates_of_none (fuel : Nat) (hend : queue[head]? = none) :
    linkStates fuel m queue head = some m := by
  cases fuel <;> simp [linkStates, hend]

/-- and otherwise goes on behind the head. -/
theorem linkStates_succ_of_some (fuel : Nat) {r : Nat} (hhead : queue[head]? = some r) :
    linkStates (fuel + 1) m queue head =
      (alphabet.foldlM (linkChild r) (m, queue)).bind fun q =>
        linkStates fuel q.1 q.2 (head + 1) := by
  simp [linkStates, hhead]

/-- **The loop ends** with all states linked. -/
theorem Frontier.linkStates_spec (hfits : Markable T mark) {fuel : Nat}
    (h : Frontier T mark m queue head) (hfuel : maxPatterns ≤ head + fuel) :
    ∃ m', linkStates fuel m queue head = some m' ∧ Linked T mark m m' := by
  induction fuel generalizing m queue head with
  | zero =>
      have hend : queue[head]? = none :=
        List.getElem?_eq_none ((h.length_lt hfits).le.trans hfuel)
      exact ⟨m, linkStates_of_none 0 hend, h.finished hfits hend⟩
  | succ fuel ih =>
      cases hhead : queue[head]? with
      | none => exact ⟨m, linkStates_of_none _ hhead, h.finished hfits hhead⟩
      | some r =>
          obtain ⟨m', hrun, hpriorities, hnext⟩ := h.step hfits hhead
          obtain ⟨m'', hrest, hlinked⟩ := ih hnext (by omega)
          refine ⟨m'', ?_, hlinked.represents, hlinked.root, hlinked.linked,
            hlinked.priorities.trans hpriorities⟩
          rw [linkStates_succ_of_some fuel hhead, hrun]
          exact hrest

/-! ## Phase 2 -/

/-- The links of the first states lead to the root. -/
theorem foldl_update_zero (roots : List Nat) (failure : Nat → Nat) {s : Nat}
    (hs : s ∈ roots) :
    roots.foldl (fun failure s => Function.update failure s 0) failure s = 0 := by
  induction roots using List.reverseRecOn with
  | nil => cases hs
  | append_singleton roots r ih =>
      rw [List.foldl_append, List.foldl_cons, List.foldl_nil]
      by_cases h : s = r
      · rw [h, Function.update_self]
      · rw [Function.update_of_ne h]
        exact ih ((List.mem_append.mp hs).resolve_right (List.mem_singleton.not.mpr h))

/-- The queue starts with the children of the root, which are linked to the root. -/
theorem frontier_roots (hT : Represents T m.transitions) (hfits : Markable T mark)
    (hown : ∀ s w, T[s]? = some w → m.output s = outputEntry (mark w)) :
    Frontier T mark
      { m with
        failure := (m.childrenOf 0 alphabet).foldl
          (fun failure s => Function.update failure s 0) m.failure }
      (m.childrenOf 0 alphabet) 0 := by
  have hroots : ∀ s, s ∈ m.childrenOf 0 alphabet ↔ ∃ c, T[s]? = some ([] ++ [c]) :=
    fun s => mem_childrenOf_alphabet hT hfits hT.root
  have hdepth := depth_childrenOf hT hfits hT.root
  constructor
  case represents => exact hT
  case nodup => exact nodup_childrenOf hT hT.root nodup_alphabet
  case nodes =>
    intro s hs
    obtain ⟨c, hc⟩ := (hroots s).mp hs
    exact ⟨_, hc, List.cons_ne_nil _ _⟩
  case roots => exact fun s c hs => (hroots s).mpr ⟨c, hs⟩
  case children => exact fun r hr => absurd hr List.not_mem_nil
  case parents =>
    intro s hs w c hsw hne
    obtain ⟨d, hd⟩ := (hroots s).mp hs
    exact absurd (List.append_inj' (Option.some.inj (hd.symm.trans hsw)) rfl).1.symm hne
  case sorted => exact pairwise_depth hdepth
  case levels =>
    intro r hr s hs
    rw [hdepth s hs]
    exact Nat.le_add_left 1 _
  case linked =>
    intro s hs w hsw
    obtain ⟨c, hc⟩ := (hroots s).mp hs
    obtain rfl := Option.some.inj (hc.symm.trans hsw)
    constructor
    · change T[(m.childrenOf 0 alphabet).foldl _ m.failure s]? = _
      rw [foldl_update_zero _ _ hs]
      exact hT.root
    · exact hown s _ hsw
  case unlinked => exact fun s _ w hsw => hown s w hsw

/-- **Phase 2**, on a trie that fits. -/
theorem exists_linked (hT : Represents T m.transitions) (hfits : Markable T mark)
    (hown : ∀ s w, T[s]? = some w → m.output s = outputEntry (mark w)) :
    ∃ m', m.buildFailureLinks = some m' ∧ Linked T mark m m' := by
  obtain ⟨m', hrun, hlinked⟩ :=
    (frontier_roots hT hfits hown).linkStates_spec hfits (Nat.zero_add _).ge
  exact ⟨m', hrun, hlinked.represents, hlinked.root, hlinked.linked, hlinked.priorities⟩

end StopTrading.Events
