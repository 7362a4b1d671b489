import StopTrading.Library.CompressedTrie

/-!
# The longest prefix

`longest look n` is the greatest length up to `n` at which something is found, together with
what is found there.  Lengths behind a first part can be searched on their own
(`longest_add`).

`lookup` is what a search in a trie finds at its end.  As long as no fragment is empty, a
search ends (`Solid.search_isSome`), and the fragment of a child either leaves the key, so
that nothing is found, or is the first part of it (`Solid.lookup_of_leaves`,
`Solid.lookup_append`).  Nothing else of the shape of a trie is needed.

### What is load-bearing

A router matches the longest stored prefix of a key by walking down once and remembering the last
value it passed.  To compare this with the definition, all lengths have to be searched, each from
the root.  `longest_add` cuts the lengths at the end of the child's fragment: up to there only
the fragment itself can be found (`longest_of_last`), and behind it the search is one from the
child with what is left of the key.  This is the induction, and its step is
`Solid.longest_append`.
-/

namespace StopTrading.LongestPrefix

open CompressedTrie

universe u v w

variable {V : Type w}

/-- **The greatest length from one on** at which something is found. -/
def longest (look : Nat → Option V) : Nat → Option (Nat × V)
  | 0 => none
  | n + 1 => ((look (n + 1)).map fun v => (n + 1, v)).or (longest look n)

section Longest

variable {look look' : Nat → Option V} {m n : Nat} {v : V}

/-- The last length is the greatest at which something is found. -/
theorem longest_succ_of_some (h : look (n + 1) = some v) :
    longest look (n + 1) = some (n + 1, v) := by
  rw [longest, h]
  rfl

/-- Nothing is found there, so look before it. -/
theorem longest_succ_of_none (h : look (n + 1) = none) :
    longest look (n + 1) = longest look n := by
  rw [longest, h]
  rfl

/-- Nothing is found at all. -/
theorem longest_eq_none_iff : longest look n = none ↔ ∀ m, 1 ≤ m → m ≤ n → look m = none := by
  induction n with
  | zero => exact iff_of_true rfl fun m hm hm' => absurd hm (by omega)
  | succ n ih =>
      cases hlook : look (n + 1) with
      | some v =>
          rw [longest_succ_of_some hlook]
          refine iff_of_false nofun fun h => ?_
          rw [h (n + 1) (by omega) le_rfl] at hlook
          cases hlook
      | none =>
          rw [longest_succ_of_none hlook, ih]
          refine ⟨fun h m hm hmn => ?_, fun h m hm hmn => h m hm (by omega)⟩
          rcases hmn.lt_or_eq with hlt | rfl
          · exact h m hm (by omega)
          · exact hlook

/-- **What the greatest length is.** -/
theorem longest_eq_some_iff :
    longest look n = some (m, v) ↔
      1 ≤ m ∧ m ≤ n ∧ look m = some v ∧ ∀ l, m < l → l ≤ n → look l = none := by
  induction n with
  | zero => exact iff_of_false nofun fun h => absurd (h.1.trans h.2.1) (by omega)
  | succ n ih =>
      cases hlook : look (n + 1) with
      | some v' =>
          rw [longest_succ_of_some hlook]
          constructor
          · intro h
            cases h
            exact ⟨by omega, le_rfl, hlook, fun l hl hl' => absurd hl (by omega)⟩
          · rintro ⟨-, hmn, hfound, hlast⟩
            rcases hmn.lt_or_eq with hlt | rfl
            · rw [hlast (n + 1) hlt le_rfl] at hlook
              cases hlook
            · cases hlook.symm.trans hfound
              rfl
      | none =>
          rw [longest_succ_of_none hlook, ih]
          constructor
          · rintro ⟨hm, hmn, hfound, hlast⟩
            refine ⟨hm, by omega, hfound, fun l hl hl' => ?_⟩
            rcases hl'.lt_or_eq with hlt | rfl
            · exact hlast l hl (by omega)
            · exact hlook
          · rintro ⟨hm, hmn, hfound, hlast⟩
            have hne : m ≠ n + 1 := by
              rintro rfl
              cases hlook.symm.trans hfound
            exact ⟨hm, by omega, hfound, fun l hl hl' => hlast l hl (by omega)⟩

/-- Only what is found matters. -/
theorem longest_congr (h : ∀ m, 1 ≤ m → m ≤ n → look m = look' m) :
    longest look n = longest look' n := by
  induction n with
  | zero => rfl
  | succ n ih =>
      rw [longest, longest, h (n + 1) (by omega) le_rfl,
        ih fun m hm hmn => h m hm (by omega)]

/-- Lengths up to `m` and lengths behind it. -/
theorem longest_add (m n : Nat) :
    longest look (m + n) =
      ((longest (fun l => look (m + l)) n).map fun p => (m + p.1, p.2)).or (longest look m) := by
  induction n with
  | zero => rfl
  | succ n ih =>
      cases hlook : look (m + (n + 1)) with
      | some v =>
          rw [← Nat.add_assoc] at hlook ⊢
          have hbehind : longest (fun l => look (m + l)) (n + 1) = some (n + 1, v) :=
            longest_succ_of_some hlook
          rw [longest_succ_of_some hlook, hbehind]
          rfl
      | none =>
          have hbehind : longest (fun l => look (m + l)) (n + 1) =
              longest (fun l => look (m + l)) n := longest_succ_of_none hlook
          rw [hbehind, ← ih]
          exact longest_succ_of_none hlook

/-- Nothing is found before the last length. -/
theorem longest_of_last (hn : 1 ≤ n) (h : ∀ m, 1 ≤ m → m < n → look m = none) :
    longest look n = (look n).map fun v => (n, v) := by
  obtain ⟨n, rfl⟩ : ∃ k, n = k + 1 := ⟨n - 1, by omega⟩
  rw [longest, longest_eq_none_iff.mpr fun m hm hmn => h m hm (by omega), Option.or_none]

end Longest

/-! ## Searches in a trie -/

section Lookup

variable {N : Type u} {K : Type v} [DecidableEq K]

/-- What a search finds: the value of the node where it ends. -/
def lookup (t : Trie N K) (value : N → Option V) (a : N) (key : List K) : Option V :=
  match search t key.length a key with
  | some (.node n) => value n
  | _ => none

/-- **No child has an empty fragment.** -/
def Solid (t : Trie N K) : Prop :=
  ∀ ⦃a c b⦄, t.child a c = some b → t.fragment b ≠ []

variable {t : Trie N K} {value : N → Option V} {a b : N} {c : K} {key : List K}

/-- The empty key ends where it begins. -/
theorem lookup_nil : lookup t value a [] = value a := rfl

/-- No child, no value. -/
theorem lookup_of_vacant (h : t.child a c = none) : lookup t value a (c :: key) = none := by
  simp only [lookup, List.length_cons, search, h]

/-- A key that leaves a fragment does so before its end. -/
theorem matchLen_lt_of_leaves {fragment : List K} (h : ¬ fragment <+: key) :
    matchLen fragment key < fragment.length :=
  lt_of_le_of_ne (matchLen_le fragment key) fun heq => h (matchLen_eq_length_iff.mp heq)

/-- Nothing is found for a key that leaves the fragment of the child. -/
theorem lookup_of_leaves (hchild : t.child a c = some b)
    (hfragment : ¬ t.fragment b <+: c :: key) : lookup t value a (c :: key) = none := by
  simp only [lookup, List.length_cons, search, hchild,
    if_pos (matchLen_lt_of_leaves hfragment)]

/-- Only the whole fragment of a child leads to it. -/
theorem lookup_take_of_lt (hchild : t.child a c = some b) {n : Nat} (hn : 1 ≤ n)
    (hlt : n < (t.fragment b).length) : lookup t value a ((c :: key).take n) = none := by
  obtain ⟨n, rfl⟩ : ∃ k, n = k + 1 := ⟨n - 1, by omega⟩
  rw [List.take_succ_cons]
  refine lookup_of_leaves hchild fun hbegins => ?_
  have hle := hbegins.length_le
  rw [List.length_cons, List.length_take] at hle
  omega

namespace Solid

omit [DecidableEq K] in
/-- A fragment that a key goes on with starts like the key. -/
theorem fragment_eq (h : Solid t) (hchild : t.child a c = some b)
    (hbegins : t.fragment b <+: c :: key) :
    ∃ f r, t.fragment b = c :: f ∧ key = f ++ r := by
  obtain ⟨r, hr⟩ := hbegins
  cases hfragment : t.fragment b with
  | nil => exact absurd hfragment (h hchild)
  | cons c' f =>
      rw [hfragment, List.cons_append, List.cons.injEq] at hr
      exact ⟨f, r, by rw [hr.1], hr.2.symm⟩

/-- **Rounds do not matter**, if there are enough of them. -/
theorem search_of_le (h : Solid t) {rounds : Nat} (hrounds : key.length ≤ rounds) :
    search t rounds a key = search t key.length a key ∧ (search t rounds a key).isSome := by
  induction hlength : key.length using Nat.strong_induction_on generalizing a key rounds with
  | h n ih =>
      subst hlength
      cases key with
      | nil => cases rounds <;> exact ⟨rfl, rfl⟩
      | cons c key =>
          obtain ⟨rounds, rfl⟩ : ∃ k, rounds = k + 1 :=
            ⟨rounds - 1, by rw [List.length_cons] at hrounds; omega⟩
          rw [List.length_cons] at hrounds
          rw [List.length_cons]
          cases hchild : t.child a c with
          | none => simp only [search, hchild, Option.isSome_some, and_self]
          | some b =>
              by_cases hbegins : t.fragment b <+: c :: key
              · obtain ⟨f, r, hfragment, rfl⟩ := h.fragment_eq hchild hbegins
                rw [← List.cons_append, search_step hchild hfragment,
                  search_step hchild hfragment]
                rw [List.length_append] at hrounds ⊢
                have hless : r.length < (c :: (f ++ r)).length := by
                  rw [List.length_cons, List.length_append]
                  omega
                obtain ⟨heq, hsome⟩ := @ih r.length hless b r rounds (by omega) rfl
                obtain ⟨heq', -⟩ := @ih r.length hless b r (f.length + r.length) (by omega) rfl
                exact ⟨heq.trans heq'.symm, hsome⟩
              · have hlt := matchLen_lt_of_leaves hbegins
                simp only [search, hchild, if_pos hlt, Option.isSome_some, and_self]

/-- A search ends. -/
theorem search_isSome (h : Solid t) (a : N) (key : List K) :
    ∃ o, search t key.length a key = some o :=
  Option.isSome_iff_exists.mp (h.search_of_le le_rfl).2

/-- **The search behind the fragment of a child.** -/
theorem lookup_append (h : Solid t) {f r : List K} (hchild : t.child a c = some b)
    (hfragment : t.fragment b = c :: f) :
    lookup t value a (c :: f ++ r) = lookup t value b r := by
  have hlength : (c :: f ++ r).length = (f.length + r.length) + 1 := by
    rw [List.length_append, List.length_cons]
    omega
  rw [lookup, hlength, search_step hchild hfragment,
    (h.search_of_le (Nat.le_add_left ..)).1, lookup]

/-- **The greatest length behind the fragment of a child**, or the fragment itself. -/
theorem longest_append (h : Solid t) {f r : List K} (hchild : t.child a c = some b)
    (hfragment : t.fragment b = c :: f) :
    longest (fun n => lookup t value a ((c :: f ++ r).take n)) (c :: f ++ r).length =
      ((longest (fun n => lookup t value b (r.take n)) r.length).map
          fun p => ((c :: f).length + p.1, p.2)).or
        ((value b).map fun v => ((c :: f).length, v)) := by
  have htake : ∀ n, (c :: f ++ r).take ((c :: f).length + n) = c :: f ++ r.take n := fun n => by
    rw [List.take_append, List.take_of_length_le (Nat.le_add_right ..), Nat.add_sub_cancel_left]
  have hbehind : longest (fun n => lookup t value a ((c :: f ++ r).take ((c :: f).length + n)))
      r.length = longest (fun n => lookup t value b (r.take n)) r.length :=
    longest_congr fun n _ _ => by rw [htake, h.lookup_append hchild hfragment]
  have hbefore : longest (fun n => lookup t value a ((c :: f ++ r).take n)) (c :: f).length =
      (value b).map fun v => ((c :: f).length, v) := by
    rw [longest_of_last (n := (c :: f).length) (by simp)]
    · have hall := htake 0
      rw [Nat.add_zero, List.take_zero] at hall
      rw [hall, h.lookup_append hchild hfragment, lookup_nil]
    · intro n hn hlt
      exact lookup_take_of_lt hchild hn (by rw [hfragment]; exact hlt)
  rw [List.length_append, longest_add, hbehind, hbefore]

end Solid

/-- Nothing is found where the first symbol has no child. -/
theorem longest_of_vacant (h : t.child a c = none) (n : Nat) :
    longest (fun n => lookup t value a ((c :: key).take n)) n = none :=
  longest_eq_none_iff.mpr fun m hm _ => by
    obtain ⟨m, rfl⟩ : ∃ k, m = k + 1 := ⟨m - 1, by omega⟩
    exact lookup_of_vacant h

/-- Nothing is found where the key leaves the fragment of the child. -/
theorem longest_of_leaves (hchild : t.child a c = some b)
    (hfragment : ¬ t.fragment b <+: c :: key) (n : Nat) :
    longest (fun n => lookup t value a ((c :: key).take n)) n = none :=
  longest_eq_none_iff.mpr fun m hm _ => by
    obtain ⟨m, rfl⟩ : ∃ k, m = k + 1 := ⟨m - 1, by omega⟩
    refine lookup_of_leaves hchild fun hbegins => hfragment (hbegins.trans ?_)
    rw [← List.take_succ_cons]
    exact List.take_prefix ..

end Lookup

end StopTrading.LongestPrefix
