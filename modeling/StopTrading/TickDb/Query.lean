import StopTrading.TickDb.Reader

/-!
# Queries on the tick store

`TickQueryResult` starts a new iterator at every `next` and skips the ticks it has been
through.  It compares their number with the limit of the query, where the number of ticks
it returned would be meant.  So a limit of `n` returns what matches among the first `n - 1`
ticks and one match after them (`answers_some`), and the first `n` matches only if the ticks
are so arranged that this is the same (`answersQuery_iff`).

### What is load-bearing

`next` is quadratic in the ticks: it starts from the front every time.  `search_map_ok` shows
that one call is a step of a single pass, and `take_eq_answers` that the calls together are that
pass, so that nothing after it speaks of iterators.  What remains is about a list and two ways to
count in it.

### Design decisions

* `answers` is what the code computes and `limited` is what a limit should mean.  Both are plain
  functions on lists, and the theorem says exactly when they agree.
* A loop over the result takes as many rounds as it is given.  `take_eq_collect` says that more
  rounds than ticks change nothing, which is why `collect` is the whole loop.
* Floats are compared through `rank`, an order on their bits with both zeros in one place; a NaN
  is in no range.
-/

namespace StopTrading.TickDb

/-! ## Floats in order -/

/-- A float without its sign bit. -/
def magnitude (x : BitVec 64) : Nat := x.toNat % 2 ^ 63

/-- `is_nan`. -/
def isNaN (x : BitVec 64) : Bool := 0x7ff0000000000000 < magnitude x

/-- The place of a float in the order of floats; both zeros have the same. -/
def rank (x : BitVec 64) : Int := if x.msb then -magnitude x else magnitude x

/-- `x <= y`, which is false of NaN. -/
def floatLe (x y : BitVec 64) : Bool := !isNaN x && !isNaN y && decide (rank x ≤ rank y)

/-! ## Queries -/

/-- `TimeRange`. -/
structure TimeRange where
  startNs : UInt64
  endNs : UInt64
  deriving Repr, DecidableEq

/-- `contains`. -/
def TimeRange.contains (r : TimeRange) (timestampNs : UInt64) : Bool :=
  r.startNs ≤ timestampNs && timestampNs ≤ r.endNs

/-- `PriceRange`. -/
structure PriceRange where
  minPrice : BitVec 64
  maxPrice : BitVec 64
  deriving Repr, DecidableEq

/-- `contains`. -/
def PriceRange.contains (r : PriceRange) (price : BitVec 64) : Bool :=
  floatLe r.minPrice price && floatLe price r.maxPrice

/-- `TickQuery`. -/
structure TickQuery where
  timeRange : Option TimeRange
  priceRange : Option PriceRange
  limit : Option Nat
  deriving Repr, DecidableEq

/-- `matches`. -/
def TickQuery.matches (query : TickQuery) (tick : StoredTick) : Bool :=
  (query.timeRange.all fun r => r.contains tick.timestampNs) &&
    query.priceRange.all fun r => r.contains tick.price

/-- `TickQueryResult`. -/
structure TickQueryResult where
  reader : TickDbReader
  query : TickQuery
  count : Nat
  limitReached : Bool

/-- `query`. -/
def TickDbReader.query (r : TickDbReader) (query : TickQuery) : TickQueryResult :=
  ⟨r, query, 0, false⟩

/-- The items of a new iterator. -/
def TickDbReader.items [Bincode] (r : TickDbReader) : List (Except TickDbError StoredTick) :=
  (r.iter.map TickIterator.toList).getD []

namespace TickQueryResult

/-- The loop of `next` over the items that were not skipped. -/
def search (res : TickQueryResult) :
    List (Except TickDbError StoredTick) → Option (Except TickDbError StoredTick) × TickQueryResult
  | [] => (none, res)
  | item :: items =>
      let res := { res with count := res.count + 1 }
      match item with
      | .ok tick =>
          if res.query.matches tick then
            match res.query.limit with
            | some limit =>
                if limit ≤ res.count then (some (.ok tick), { res with limitReached := true })
                else (some (.ok tick), res)
            | none => (some (.ok tick), res)
          else res.search items
      | .error e => (some (.error e), res)

section Loop

variable [Bincode]

/-- `next`. -/
def next (res : TickQueryResult) : Option (Except TickDbError StoredTick) × TickQueryResult :=
  if res.limitReached then (none, res) else res.search (res.reader.items.drop res.count)

/-- The items of the first rounds of a loop over the result of a query. -/
def take (res : TickQueryResult) : Nat → List (Except TickDbError StoredTick)
  | 0 => []
  | rounds + 1 =>
      match res.next with
      | (none, _) => []
      | (some item, res) => item :: res.take rounds

/-- `collect`: every item takes one of the iterator (`take_eq_collect`). -/
def collect (res : TickQueryResult) : List (Except TickDbError StoredTick) :=
  res.take (res.reader.items.length - res.count)

end Loop

end TickQueryResult

/-! ## One pass -/

/-- **What the calls of `next` return**, as one pass over the ticks: a match is the last one
if the limit has been reached by the ticks up to it. -/
def TickQuery.answers (query : TickQuery) : Nat → List StoredTick → List StoredTick
  | _, [] => []
  | count, tick :: ticks =>
      if query.matches tick then
        tick :: if query.limit.any (· ≤ count + 1) then [] else query.answers (count + 1) ticks
      else query.answers (count + 1) ticks

namespace TickIterator

/-- The items of an iterator are ticks. -/
theorem exists_ticks_take [Bincode] (it : TickIterator) (rounds : Nat) :
    ∃ ticks : List StoredTick, it.take rounds = ticks.map .ok := by
  induction rounds generalizing it with
  | zero => exact ⟨[], rfl⟩
  | succ rounds ih =>
      rw [take]
      cases hnext : it.next with
      | none => exact ⟨[], rfl⟩
      | some found =>
          obtain ⟨item, it'⟩ := found
          obtain ⟨ticks, hticks⟩ := ih it'
          rw [next] at hnext
          split_ifs at hnext
          obtain ⟨t, -, ht⟩ := Option.map_eq_some_iff.mp hnext
          cases ht
          exact ⟨t :: ticks, by rw [List.map_cons, ← hticks]⟩

end TickIterator

/-- The ticks that `iter` produces. -/
def TickDbReader.ticks [Bincode] (r : TickDbReader) : List StoredTick :=
  r.items.filterMap Except.toOption

/-- The items of a reader are its ticks: no item is an error. -/
theorem TickDbReader.items_eq [Bincode] (r : TickDbReader) : r.items = r.ticks.map .ok := by
  have hticks : ∃ ticks : List StoredTick, r.items = ticks.map .ok := by
    rw [items]
    cases r.iter with
    | none => exact ⟨[], rfl⟩
    | some it => exact it.exists_ticks_take _
  obtain ⟨ticks, hticks⟩ := hticks
  rw [TickDbReader.ticks, hticks, List.filterMap_map]
  exact congrArg _ List.filterMap_some.symm

namespace TickQueryResult

/-- **One call**: nothing more matches, or the next match is returned and the ticks up to it
will be skipped. -/
theorem search_map_ok (ticks : List StoredTick) :
    ∀ {res : TickQueryResult}, res.limitReached = false →
      ((∃ res', res.search (ticks.map .ok) = (none, res')) ∧
        res.query.answers res.count ticks = []) ∨
      ∃ skipped tick rest reached, ticks = skipped ++ tick :: rest ∧
        res.search (ticks.map .ok) = (some (.ok tick),
          ⟨res.reader, res.query, res.count + (skipped.length + 1), reached⟩) ∧
        res.query.answers res.count ticks = tick :: if reached then []
          else res.query.answers (res.count + (skipped.length + 1)) rest := by
  induction ticks with
  | nil => exact fun _ => .inl ⟨⟨_, rfl⟩, rfl⟩
  | cons tick ticks ih =>
      intro res hopen
      rw [List.map_cons, search, TickQuery.answers]
      by_cases hmatches : res.query.matches tick = true
      · refine .inr ⟨[], tick, ticks, res.query.limit.any (· ≤ res.count + 1), rfl, ?_, ?_⟩
        · simp only [hmatches, if_true, List.length_nil, Nat.zero_add]
          cases hlimit : res.query.limit with
          | none => simp only [Option.any_none, ← hopen]
          | some limit =>
              by_cases hreached : limit ≤ res.count + 1
              · simp only [hreached, if_true, Option.any_some, decide_true]
              · simp only [hreached, if_false, Option.any_some, decide_false, ← hopen]
        · rw [if_pos hmatches, List.length_nil, Nat.zero_add]
      · simp only [hmatches]
        rcases @ih { res with count := res.count + 1 } hopen with
          ⟨hnone, hanswers⟩ | ⟨skipped, found, rest, reached, rfl, hsome, hanswers⟩
        · exact .inl ⟨hnone, hanswers⟩
        · refine .inr ⟨tick :: skipped, found, rest, reached, rfl, ?_, ?_⟩
          · rw [if_neg (by decide), hsome, List.length_cons, Nat.add_assoc res.count 1,
              Nat.add_comm 1]
          · rw [if_neg (by decide), hanswers, List.length_cons, Nat.add_assoc res.count 1,
              Nat.add_comm 1]

variable [Bincode]

/-- After the limit there is nothing more. -/
theorem take_of_limitReached {res : TickQueryResult} (h : res.limitReached = true) (rounds : Nat) :
    res.take rounds = [] := by
  cases rounds with
  | zero => rfl
  | succ rounds => rw [take, next, if_pos h]

/-- **The calls together**: after the ticks that are skipped, one pass over the others. -/
theorem take_eq_answers (rounds : Nat) :
    ∀ {res : TickQueryResult}, res.limitReached = false →
      res.reader.ticks.length ≤ res.count + rounds →
      res.take rounds =
        (res.query.answers res.count (res.reader.ticks.drop res.count)).map .ok := by
  induction rounds with
  | zero =>
      intro res _ hrounds
      rw [List.drop_of_length_le (by omega)]
      rfl
  | succ rounds ih =>
      intro res hopen hrounds
      rw [take, next, if_neg (by rw [hopen]; decide), TickDbReader.items_eq, ← List.map_drop]
      rcases search_map_ok (res.reader.ticks.drop res.count) hopen with
        ⟨⟨res', hnone⟩, hanswers⟩ | ⟨skipped, tick, rest, reached, hticks, hsome, hanswers⟩
      · rw [hanswers, hnone]
        rfl
      · rw [hsome, hanswers, List.map_cons]
        refine congrArg (Except.ok tick :: ·) ?_
        obtain ⟨res', hres'⟩ : ∃ res' : TickQueryResult,
            res' = ⟨res.reader, res.query, res.count + (skipped.length + 1), reached⟩ := ⟨_, rfl⟩
        rw [← hres']
        cases reached with
        | true =>
            have hclosed : res'.limitReached = true := by rw [hres']
            rw [if_pos rfl, take_of_limitReached hclosed, List.map_nil]
        | false =>
            have hrest : rest = res.reader.ticks.drop (res.count + (skipped.length + 1)) := by
              rw [← List.drop_drop, hticks, List.append_cons]
              simp
            have hopen' : res'.limitReached = false := by rw [hres']
            have hrounds' : res'.reader.ticks.length ≤ res'.count + rounds := by
              rw [hres']
              simp only
              omega
            rw [if_neg (by decide), hrest, ih hopen' hrounds', hres']

/-- **A loop ends**: more rounds than there are ticks left find no more. -/
theorem take_eq_collect {res : TickQueryResult} (hopen : res.limitReached = false) {rounds : Nat}
    (h : res.reader.items.length - res.count ≤ rounds) : res.take rounds = res.collect := by
  have hlength : res.reader.items.length = res.reader.ticks.length := by
    rw [TickDbReader.items_eq, List.length_map]
  rw [collect, take_eq_answers rounds hopen (by omega), take_eq_answers _ hopen (by omega)]

end TickQueryResult

/-- **Collecting a query** is one pass over the ticks. -/
theorem TickDbReader.collect_query [Bincode] (r : TickDbReader) (query : TickQuery) :
    (r.query query).collect = (query.answers 0 r.ticks).map .ok := by
  have hlength : r.items.length = r.ticks.length := by rw [items_eq, List.length_map]
  have hrounds : r.ticks.length ≤ 0 + (r.items.length - 0) := by omega
  exact TickQueryResult.take_eq_answers _ rfl hrounds

/-! ## Limits -/

/-- One element or more, up to the same length. -/
theorem take_one_eq_take_iff {α : Type} (xs : List α) (more : Nat) :
    xs.take 1 = xs.take (more + 1) ↔ more = 0 ∨ xs.length ≤ 1 := by
  constructor
  · intro h
    have hlength := congrArg List.length h
    rw [List.length_take, List.length_take] at hlength
    omega
  · rintro (rfl | hshort)
    · rfl
    · rw [List.take_of_length_le hshort, List.take_of_length_le (by omega)]

/-- What satisfies a test among the first elements of a list is as long as they are, if all of
them do. -/
theorem length_filter_take_eq_iff {α : Type} (p : α → Bool) {xs : List α} {n : Nat}
    (h : n ≤ xs.length) : ((xs.take n).filter p).length = n ↔ ∀ x ∈ xs.take n, p x := by
  have hlength : (xs.take n).length = n := by rw [List.length_take, Nat.min_eq_left h]
  rw [← List.length_filter_eq_length_iff, hlength]

/-- **The first `n + 1` elements that satisfy a test** are those among the first `n` elements
and one more, if and only if the first `n` all do or at most one more does. -/
theorem filter_take_append_eq_iff {α : Type} (p : α → Bool) (xs : List α) (n : Nat) :
    (xs.take n).filter p ++ ((xs.drop n).filter p).take 1 = (xs.filter p).take (n + 1) ↔
      (∀ x ∈ xs.take n, p x) ∨ ((xs.drop n).filter p).length ≤ 1 := by
  have hle : ((xs.take n).filter p).length ≤ n :=
    (List.length_filter_le _ _).trans (List.length_take_le _ _)
  have hsplit : xs.filter p = (xs.take n).filter p ++ (xs.drop n).filter p := by
    rw [← List.filter_append, List.take_append_drop]
  have hfirst : ((xs.take n).filter p).take (n + 1) = (xs.take n).filter p :=
    List.take_of_length_le (by omega)
  rw [hsplit, List.take_append, hfirst, List.append_right_inj,
    show n + 1 - ((xs.take n).filter p).length = n - ((xs.take n).filter p).length + 1 by omega,
    take_one_eq_take_iff]
  rcases Nat.lt_or_ge xs.length n with hshort | hlong
  · have hnone : (xs.drop n).filter p = [] := by
      rw [List.drop_of_length_le hshort.le, List.filter_nil]
    rw [hnone]
    exact iff_of_true (.inr (Nat.zero_le 1)) (.inr (Nat.zero_le 1))
  · refine or_congr_left ?_
    rw [← length_filter_take_eq_iff p hlong]
    omega

namespace TickQuery

variable {query : TickQuery}

/-- Without a limit, everything that matches is returned. -/
theorem answers_none (hlimit : query.limit = none) (count : Nat) (ticks : List StoredTick) :
    query.answers count ticks = ticks.filter query.matches := by
  induction ticks generalizing count with
  | nil => rfl
  | cons tick ticks ih =>
      rw [answers, ih, hlimit, List.filter_cons]
      rfl

/-- **With a limit**, what matches among the ticks before the one that reaches it, and one
match from there on. -/
theorem answers_some {limit : Nat} (hlimit : query.limit = some limit) (count : Nat)
    (ticks : List StoredTick) :
    query.answers count ticks =
      (ticks.take (limit - 1 - count)).filter query.matches ++
        ((ticks.drop (limit - 1 - count)).filter query.matches).take 1 := by
  induction ticks generalizing count with
  | nil => simp [answers]
  | cons tick ticks ih =>
      rw [answers, ih, hlimit, Option.any_some]
      by_cases hreached : limit ≤ count + 1
      · have hnone : limit - 1 - count = 0 := by omega
        have hnext : limit - 1 - (count + 1) = 0 := by omega
        rw [hnone, hnext, List.take_zero, List.take_zero, List.drop_zero, List.drop_zero,
          List.filter_cons]
        by_cases hmatches : query.matches tick = true
        · simp [hmatches, hreached]
        · simp [hmatches]
      · obtain ⟨more, hmore⟩ : ∃ more, limit - 1 - count = more + 1 :=
          ⟨limit - 1 - count - 1, by omega⟩
        have hnext : limit - 1 - (count + 1) = more := by omega
        rw [hmore, hnext, List.take_succ_cons, List.drop_succ_cons, List.filter_cons]
        by_cases hmatches : query.matches tick = true
        · simp [hmatches, hreached]
        · simp [hmatches]

/-- The first ticks up to a limit. -/
def limited (limit : Option Nat) (ticks : List StoredTick) : List StoredTick :=
  match limit with
  | none => ticks
  | some limit => ticks.take limit

/-- **The limit counts the same either way**: there is none; it is zero and nothing matches;
or all ticks before the one that reaches it match, or at most one later tick does. -/
def CountsMatches (query : TickQuery) (ticks : List StoredTick) : Prop :=
  match query.limit with
  | none => True
  | some 0 => ticks.filter query.matches = []
  | some (before + 1) =>
      (∀ tick ∈ ticks.take before, query.matches tick) ∨
        ((ticks.drop before).filter query.matches).length ≤ 1

/-- **The first matches** are returned if and only if the limit counts the same either
way. -/
theorem answers_eq_limited_iff (query : TickQuery) (ticks : List StoredTick) :
    query.answers 0 ticks = limited query.limit (ticks.filter query.matches) ↔
      query.CountsMatches ticks := by
  rw [CountsMatches]
  cases hlimit : query.limit with
  | none => exact iff_true_intro (answers_none hlimit 0 ticks)
  | some limit =>
      rw [answers_some hlimit]
      cases limit with
      | zero => simp [limited]
      | succ before => exact filter_take_append_eq_iff query.matches ticks before

end TickQuery

/-- **A reader answers a query**: it returns the first ticks that match, up to the limit. -/
def TickDbReader.AnswersQuery [Bincode] (r : TickDbReader) (query : TickQuery) : Prop :=
  (r.query query).collect =
    (TickQuery.limited query.limit (r.ticks.filter query.matches)).map .ok

/-- **A query is answered** if and only if its limit counts matches as it counts ticks. -/
theorem answersQuery_iff [Bincode] (r : TickDbReader) (query : TickQuery) :
    r.AnswersQuery query ↔ query.CountsMatches r.ticks := by
  rw [← TickQuery.answers_eq_limited_iff, TickDbReader.AnswersQuery, TickDbReader.collect_query]
  exact List.map_inj_right fun _ _ => Except.ok.inj

open LittleEndian

set_option maxRecDepth 4000 in
/-- **Three ticks, of which the last two match, and a limit of two**: only one comes back. -/
theorem not_forall_answersQuery :
    ¬ ∀ (config : TickDbConfig) (calls : List AppendCall) (file : List UInt8) (reading : Io)
        (r : TickDbReader) (query : TickQuery), Leaves config calls file →
      TickDbReader.open reading file = .ok r → r.AnswersQuery query := by
  intro hall
  have hleaves : ∃ file, Leaves ⟨1000, 172, false⟩
      [.appendBatch [.sample, { StoredTick.sample with timestampNs := 1001 },
        { StoredTick.sample with timestampNs := 1002 }]] file :=
    ⟨_, _, _, _, .fine 1, .fine 3, .fine 4, rfl, rfl, rfl, rfl, rfl⟩
  obtain ⟨file, hfile⟩ := hleaves
  have hreads : (Io.fine 5).opens = true ∧ (Io.fine 5).maps = true := ⟨rfl, rfl⟩
  obtain ⟨r, it, hopen, hiter, -, hitems⟩ := read_of_leaves hfile hreads
  have hticks : r.ticks = [.sample, { StoredTick.sample with timestampNs := 1001 },
      { StoredTick.sample with timestampNs := 1002 }] := by
    rw [TickDbReader.ticks, TickDbReader.items, hiter, Option.map_some, hitems]
    rfl
  have hanswers := hall _ _ file (.fine 5) r ⟨some ⟨1001, 1002⟩, none, some 2⟩ hfile hopen
  rw [TickDbReader.AnswersQuery, TickDbReader.collect_query, hticks] at hanswers
  exact absurd (congrArg List.length hanswers) (by decide)

end StopTrading.TickDb
