import Mathlib.Data.UInt
import StopTrading.Library.SlidingWindow

/-!
# The buffer of recent trades

`TradeBuffer` keeps the trades of a price level in an array that is written around; its
oldest trade is at `head`.  What it is for is `KeepsLatest`: a loop over it finds the last
trades that were pushed, as many as it has room for, the oldest first.

The array does hold them (`Holds`, `holds_pushAll`).  But the iterator starts at `head` and
ends at the end of the array, so that it leaves out what is in front of `head`: of a full
buffer it finds the trades from the oldest one up to the last that was written before the
end (`toList_iter`).  So the buffer keeps its promise until it is full, and then whenever the
number of pushes is a multiple of the capacity (`keepsLatest_iff`).

### What is load-bearing

`Holds` splits the array at `head` into a front and a back, such that the back followed by the
front is what was pushed last.  A push to a full buffer moves the first trade of the back to the
end of the front, which is one step of that split.  The iterator runs over the back only.  So the
whole question, when is a loop right, is the question when the front is empty
(`Holds.toList_iter_eq_iff`).

The volumes and the time range are sums and extrema over what the loop finds.  They add no
condition of their own, and `keepsLatest_iff` states them together with the loop.
-/

namespace StopTrading.Book

open SlidingWindow

/-- `AggressorSide`. -/
inductive AggressorSide where
  | buy
  | sell
  deriving Repr, DecidableEq

/-- `TradeTick`. -/
structure TradeTick where
  symbol : String
  price : Int
  size : UInt64
  aggressorSide : AggressorSide
  timestampNs : UInt64
  deriving Repr, DecidableEq

/-- `TradeBuffer`. -/
structure TradeBuffer where
  trades : List TradeTick
  head : Nat
  tail : Nat
  count : Nat
  capacity : Nat
  deriving Repr, DecidableEq

/-- `TradeIter`. -/
structure TradeIter where
  buffer : TradeBuffer
  index : Nat
  endIndex : Nat

namespace TradeIter

/-- `next`. -/
def next (it : TradeIter) : Option TradeTick × TradeIter :=
  if it.index ≥ it.endIndex then (none, it)
  else
    (it.buffer.trades[it.index % it.buffer.capacity]?, { it with index := it.index + 1 })

/-- What a loop finds in some rounds. -/
def take : Nat → TradeIter → List TradeTick
  | 0, _ => []
  | rounds + 1, it =>
      match it.next with
      | (none, _) => []
      | (some trade, it) => trade :: take rounds it

/-- What a loop finds. -/
def toList (it : TradeIter) : List TradeTick := it.take (it.endIndex - it.index)

end TradeIter

namespace TradeBuffer

/-- `new`. -/
def new (capacity : Nat) : TradeBuffer := ⟨[], 0, 0, 0, capacity⟩

/-- `push`. -/
def push (b : TradeBuffer) (trade : TradeTick) : TradeBuffer :=
  let b :=
    if b.count < b.capacity then
      { b with
        trades :=
          if b.trades.length < b.capacity then b.trades ++ [trade] else b.trades.set b.tail trade
        count := b.count + 1 }
    else
      -- Overwrite the oldest.
      { b with
        trades := b.trades.set b.tail trade
        head := (b.head + 1) % b.capacity }
  { b with tail := (b.tail + 1) % b.capacity }

/-- `iter`. -/
def iter (b : TradeBuffer) : TradeIter :=
  if b.count = 0 then ⟨b, 0, 0⟩
  else
    ⟨b, if b.count < b.capacity then 0 else b.head,
      if b.count < b.capacity then b.count else b.capacity⟩

/-- A round of the loop of `time_range_ns`. -/
def widen (range : UInt64 × UInt64) (trade : TradeTick) : UInt64 × UInt64 :=
  (min range.1 trade.timestampNs, max range.2 trade.timestampNs)

/-- `time_range_ns`, from `u64::MAX` and zero. -/
def timeRangeNs (b : TradeBuffer) : Option (UInt64 × UInt64) :=
  if b.count = 0 then none else some (b.iter.toList.foldl widen (0xffffffffffffffff, 0))

/-- `total_volume`. -/
def totalVolume (b : TradeBuffer) (side : AggressorSide) : UInt64 :=
  ((b.iter.toList.filter fun t => t.aggressorSide = side).map TradeTick.size).sum

/-- Some pushes. -/
def pushAll (b : TradeBuffer) (trades : List TradeTick) : TradeBuffer := trades.foldl push b

/-! ## What the buffer is for -/

/-- The volume of some trades on a side. -/
def volumeOf (side : AggressorSide) (trades : List TradeTick) : UInt64 :=
  ((trades.filter fun t => t.aggressorSide = side).map TradeTick.size).sum

/-- The times of some trades lie between the two, and both are times of them. -/
def SpannedBy (trades : List TradeTick) (range : UInt64 × UInt64) : Prop :=
  (∀ t ∈ trades, range.1 ≤ t.timestampNs ∧ t.timestampNs ≤ range.2) ∧
    (∃ t ∈ trades, t.timestampNs = range.1) ∧ ∃ t ∈ trades, t.timestampNs = range.2

/-- **The latest trades are kept**: a loop finds the last trades pushed, at most `n`,
and the volumes and the time range are theirs. -/
structure KeepsLatest (b : TradeBuffer) (n : Nat) (trades : List TradeTick) : Prop where
  /-- The loop finds the last trades pushed, -/
  iter : b.iter.toList = trades.rtake n
  /-- each side has the volume of those, -/
  totalVolume : ∀ side, b.totalVolume side = volumeOf side (trades.rtake n)
  /-- and the range spans their times. -/
  timeRangeNs : ∀ range, b.timeRangeNs = some range ↔ SpannedBy (trades.rtake n) range

/-! ## The loop over the buffer -/

end TradeBuffer

namespace TradeIter

/-- Some rounds of the loop, while the array reaches as far as the iterator goes. -/
theorem take_eq (b : TradeBuffer) {last : Nat} (hlength : last ≤ b.trades.length)
    (hcapacity : last ≤ b.capacity) (rounds : Nat) :
    ∀ index, take rounds ⟨b, index, last⟩ = ((b.trades.take last).drop index).take rounds := by
  induction rounds with
  | zero => exact fun _ => List.take_zero.symm
  | succ rounds ih =>
      intro index
      by_cases hend : last ≤ index
      · rw [List.drop_eq_nil_of_le (by rw [List.length_take]; omega), take, next, if_pos hend]
        rfl
      · have hindex : index < b.trades.length := by omega
        have hmod : index % b.capacity = index := Nat.mod_eq_of_lt (by omega)
        have hinside : index < (b.trades.take last).length := by
          rw [List.length_take]
          omega
        rw [List.drop_eq_getElem_cons hinside, List.take_succ_cons, List.getElem_take, ← ih, take,
          next, if_neg hend]
        dsimp only
        rw [hmod, List.getElem?_eq_getElem hindex]

/-- **A loop ends**: more rounds find no more trades. -/
theorem take_of_le {b : TradeBuffer} {index last rounds : Nat}
    (hlength : last ≤ b.trades.length) (hcapacity : last ≤ b.capacity)
    (hrounds : last - index ≤ rounds) :
    take rounds ⟨b, index, last⟩ = (b.trades.take last).drop index := by
  rw [take_eq b hlength hcapacity, List.take_of_length_le]
  rwa [List.length_drop, List.length_take, Nat.min_eq_left hlength]

/-- The loop finds the trades between where it is and where it ends. -/
theorem toList_eq {b : TradeBuffer} {index last : Nat} (hlength : last ≤ b.trades.length)
    (hcapacity : last ≤ b.capacity) :
    toList ⟨b, index, last⟩ = (b.trades.take last).drop index :=
  take_of_le hlength hcapacity le_rfl

end TradeIter

namespace TradeBuffer

/-! ## What the array holds -/

/-- **The array holds the last trades**, from `head` on and around. -/
structure Holds (n : Nat) (trades : List TradeTick) (b : TradeBuffer) : Prop where
  capacity : b.capacity = n
  count : b.count = min trades.length n
  /-- The next slot to be written. -/
  tail : b.tail = trades.length % n
  /-- The oldest trade: the array fills up before anything is written over. -/
  head : b.head = if trades.length < n then 0 else trades.length % n
  /-- The trades from `head` on, and then around, are the last ones pushed. -/
  around : ∃ front back, b.trades = front ++ back ∧ front.length = b.head ∧
    back ++ front = trades.rtake n

/-- The array has as many trades as were pushed, until it is full. -/
theorem Holds.length {n : Nat} {trades : List TradeTick} {b : TradeBuffer}
    (h : Holds n trades b) : b.trades.length = min trades.length n := by
  obtain ⟨front, back, htrades, -, haround⟩ := h.around
  rw [htrades, ← length_rtake, ← haround, List.length_append, List.length_append, Nat.add_comm]

/-- A new buffer holds no trades. -/
theorem holds_new (n : Nat) : Holds n [] (new n) where
  capacity := rfl
  count := (Nat.zero_min _).symm
  tail := (Nat.zero_mod _).symm
  head := by
    rw [List.length_nil, Nat.zero_mod, ite_self]
    rfl
  around := ⟨[], [], rfl, rfl, (List.rtake_nil n).symm⟩

/-- A buffer with room is appended to, -/
theorem push_of_lt {b : TradeBuffer} (hcount : b.count < b.capacity)
    (hlength : b.trades.length < b.capacity) (trade : TradeTick) :
    b.push trade =
      ⟨b.trades ++ [trade], b.head, (b.tail + 1) % b.capacity, b.count + 1, b.capacity⟩ := by
  rw [push, if_pos hcount, if_pos hlength]

/-- and a full one is written over at `tail`. -/
theorem push_of_full {b : TradeBuffer} (hcount : b.capacity ≤ b.count) (trade : TradeTick) :
    b.push trade =
      ⟨b.trades.set b.tail trade, (b.head + 1) % b.capacity, (b.tail + 1) % b.capacity, b.count,
        b.capacity⟩ := by
  rw [push, if_neg (not_lt.mpr hcount)]

/-- **A push** of one more trade. -/
theorem Holds.push {n : Nat} {trades : List TradeTick} {b : TradeBuffer} (h : Holds n trades b)
    (hn : 0 < n) (trade : TradeTick) : Holds n (trades ++ [trade]) (b.push trade) := by
  have htail : (b.tail + 1) % b.capacity = (trades ++ [trade]).length % n := by
    rw [h.capacity, h.tail, Nat.mod_add_mod, List.length_append, List.length_singleton]
  have hlength : (trades ++ [trade]).length = trades.length + 1 := by
    rw [List.length_append, List.length_singleton]
  have hcapacity := h.capacity
  have hcount := h.count
  have hold := h.length
  have hhead := h.head
  obtain ⟨front, back, htrades, hfront, haround⟩ := h.around
  by_cases hroom : trades.length < n
  · -- the array grows
    rw [if_pos hroom] at hhead
    rw [push_of_lt (by omega) (by omega)]
    obtain rfl : front = [] := List.length_eq_zero_iff.mp (hfront.trans hhead)
    rw [List.append_nil, rtake_of_le hroom.le] at haround
    refine ⟨hcapacity, by simp only; omega, htail, ?_, [], b.trades ++ [trade], rfl,
      hhead.symm, ?_⟩
    · show b.head = _
      rw [hhead, hlength]
      split_ifs with hless
      · rfl
      · rw [show trades.length + 1 = n by omega, Nat.mod_self]
    · rw [List.append_nil, rtake_of_le (by omega), htrades, List.nil_append, haround]
  · -- the oldest trade stands at the front of `back`
    rw [if_neg hroom] at hhead
    rw [push_of_full (by omega)]
    have hlt : trades.length % n < n := Nat.mod_lt _ hn
    have hsum : front.length + back.length = n := by
      rw [← List.length_append, ← htrades, hold]
      omega
    obtain ⟨oldest, back, rfl⟩ : ∃ oldest rest, back = oldest :: rest :=
      List.exists_cons_of_ne_nil (List.length_pos_iff.mp (by omega))
    rw [List.length_cons] at hsum
    have hset : b.trades.set b.tail trade = front ++ trade :: back := by
      rw [htrades, h.tail, ← hhead, ← hfront, List.set_append_right _ _ le_rfl, Nat.sub_self,
        List.set_cons_zero]
    have hnext : back ++ (front ++ [trade]) = (trades ++ [trade]).rtake n := by
      rw [rtake_concat (not_lt.mp hroom) trade hn, ← haround, List.cons_append, List.tail_cons,
        List.append_assoc]
    have hnewHead : (b.head + 1) % n = (trades ++ [trade]).length % n := by
      rw [hhead, Nat.mod_add_mod, hlength]
    refine ⟨hcapacity, by simp only; omega, htail, ?_, ?_⟩
    · rw [if_neg (by omega), ← hnewHead, hcapacity]
    · rcases Nat.lt_or_ge (b.head + 1) n with hinside | hend
      · refine ⟨front ++ [trade], back, ?_, ?_, hnext⟩
        · show b.trades.set b.tail trade = _
          rw [hset, List.append_assoc, List.singleton_append]
        · show _ = (b.head + 1) % b.capacity
          rw [hcapacity, Nat.mod_eq_of_lt hinside, List.length_append, List.length_singleton,
            hfront]
      · have hwhole : b.head + 1 = n := by omega
        obtain rfl : back = [] := List.length_eq_zero_iff.mp (by omega)
        refine ⟨[], front ++ [trade], hset, ?_, ?_⟩
        · show 0 = (b.head + 1) % b.capacity
          rw [hcapacity, hwhole, Nat.mod_self]
        · rw [List.append_nil, ← hnext, List.nil_append]

/-- **Any number of pushes** leaves the last trades in the array. -/
theorem holds_pushAll {n : Nat} (hn : 0 < n) (trades : List TradeTick) :
    Holds n trades ((new n).pushAll trades) := by
  suffices hmore : ∀ (later earlier : List TradeTick) (b : TradeBuffer), Holds n earlier b →
      Holds n (earlier ++ later) (b.pushAll later) from
    hmore trades [] (new n) (holds_new n)
  intro later
  induction later with
  | nil =>
      intro earlier b h
      rwa [List.append_nil]
  | cons trade later ih =>
      intro earlier b h
      have hrest := ih (earlier ++ [trade]) (b.push trade) (h.push hn trade)
      rwa [List.append_assoc, List.singleton_append] at hrest

/-! ## What the loop finds -/

/-- **The iterator** leaves out what stands in front of `head`. -/
theorem Holds.toList_iter {n : Nat} {trades : List TradeTick} {b : TradeBuffer}
    (h : Holds n trades b) :
    b.iter.toList = (trades.rtake n).take (b.trades.length - b.head) := by
  obtain ⟨front, back, htrades, hfront, haround⟩ := h.around
  have hcapacity := h.capacity
  have hcount := h.count
  have hlength := h.length
  have hhead := h.head
  have hback : (trades.rtake n).take (b.trades.length - b.head) = back := by
    rw [← haround, htrades, List.length_append, ← hfront, Nat.add_sub_cancel_left, List.take_left]
  rw [hback, iter]
  by_cases hempty : b.count = 0
  · rw [if_pos hempty]
    have hnil : b.trades = [] := List.length_eq_zero_iff.mp (by omega)
    rw [htrades] at hnil
    rw [(List.append_eq_nil_iff.mp hnil).2]
    rfl
  · rw [if_neg hempty]
    by_cases hroom : b.count < b.capacity
    · rw [if_pos hroom, if_pos hroom, TradeIter.toList_eq (by omega) (by omega), List.drop_zero,
        List.take_of_length_le (by omega), htrades]
      rw [if_pos (by omega)] at hhead
      rw [List.length_eq_zero_iff.mp (hfront.trans hhead), List.nil_append]
    · rw [if_neg hroom, if_neg hroom, TradeIter.toList_eq (by omega) (by omega),
        List.take_of_length_le (by omega), htrades, ← hfront, List.drop_left]

/-- The loop finds all of them exactly if `head` is at the start of the array. -/
theorem Holds.toList_iter_eq_iff {n : Nat} {trades : List TradeTick} {b : TradeBuffer}
    (h : Holds n trades b) (hn : 0 < n) :
    b.iter.toList = trades.rtake n ↔ trades.length < n ∨ n ∣ trades.length := by
  have hlength := h.length
  have hall := length_rtake trades n
  have hhead := h.head
  have hlt := Nat.mod_lt trades.length hn
  rw [h.toList_iter, List.take_eq_self_iff, Nat.dvd_iff_mod_eq_zero]
  split_ifs at hhead with hroom
  · exact iff_of_true (by omega) (.inl hroom)
  · rw [or_iff_right hroom]
    omega

/-! ## The time range -/

/-- The least of two times is one of them and below both, -/
theorem min_spec (a b : UInt64) : min a b ≤ a ∧ min a b ≤ b ∧ (min a b = a ∨ min a b = b) := by
  show (if a ≤ b then a else b) ≤ a ∧ (if a ≤ b then a else b) ≤ b ∧
    ((if a ≤ b then a else b) = a ∨ (if a ≤ b then a else b) = b)
  split_ifs with h
  · exact ⟨UInt64.le_refl a, h, .inl rfl⟩
  · exact ⟨(UInt64.le_total a b).resolve_left h, UInt64.le_refl b, .inr rfl⟩

/-- and the greatest is one of them and above both. -/
theorem max_spec (a b : UInt64) : a ≤ max a b ∧ b ≤ max a b ∧ (max a b = a ∨ max a b = b) := by
  show a ≤ (if a ≤ b then b else a) ∧ b ≤ (if a ≤ b then b else a) ∧
    ((if a ≤ b then b else a) = a ∨ (if a ≤ b then b else a) = b)
  split_ifs with h
  · exact ⟨h, UInt64.le_refl b, .inr rfl⟩
  · exact ⟨UInt64.le_refl a, (UInt64.le_total a b).resolve_left h, .inl rfl⟩

/-- **What a loop over the trades finds** of their times. -/
theorem foldl_widen (trades : List TradeTick) (range : UInt64 × UInt64) :
    (∀ t ∈ trades, (trades.foldl widen range).1 ≤ t.timestampNs ∧
        t.timestampNs ≤ (trades.foldl widen range).2) ∧
      ((trades.foldl widen range).1 ≤ range.1 ∧ ((trades.foldl widen range).1 = range.1 ∨
        ∃ t ∈ trades, t.timestampNs = (trades.foldl widen range).1)) ∧
      (range.2 ≤ (trades.foldl widen range).2 ∧ ((trades.foldl widen range).2 = range.2 ∨
        ∃ t ∈ trades, t.timestampNs = (trades.foldl widen range).2)) := by
  induction trades generalizing range with
  | nil => exact ⟨nofun, ⟨UInt64.le_refl _, .inl rfl⟩, UInt64.le_refl _, .inl rfl⟩
  | cons trade trades ih =>
      obtain ⟨hall, ⟨hleast, hleast'⟩, hmost, hmost'⟩ := ih (widen range trade)
      obtain ⟨hmin, hmin', hmins⟩ := min_spec range.1 trade.timestampNs
      obtain ⟨hmax, hmax', hmaxs⟩ := max_spec range.2 trade.timestampNs
      rw [List.foldl_cons]
      refine ⟨?_, ⟨UInt64.le_trans hleast hmin, ?_⟩, UInt64.le_trans hmax hmost, ?_⟩
      · rw [List.forall_mem_cons]
        exact ⟨⟨UInt64.le_trans hleast hmin', UInt64.le_trans hmax' hmost⟩, hall⟩
      · rcases hleast' with heq | ⟨t, ht, heq⟩
        · rcases hmins with hold | hnew
          · exact .inl (heq.trans hold)
          · exact .inr ⟨trade, List.mem_cons_self, (heq.trans hnew).symm⟩
        · exact .inr ⟨t, List.mem_cons_of_mem _ ht, heq⟩
      · rcases hmost' with heq | ⟨t, ht, heq⟩
        · rcases hmaxs with hold | hnew
          · exact .inl (heq.trans hold)
          · exact .inr ⟨trade, List.mem_cons_self, (heq.trans hnew).symm⟩
        · exact .inr ⟨t, List.mem_cons_of_mem _ ht, heq⟩

/-- The loop from `u64::MAX` and zero spans the trades, if there is one. -/
theorem spannedBy_foldl_widen {trades : List TradeTick} (hne : trades ≠ []) :
    SpannedBy trades (trades.foldl widen (0xffffffffffffffff, 0)) := by
  obtain ⟨hall, ⟨-, hleast⟩, -, hmost⟩ := foldl_widen trades (0xffffffffffffffff, 0)
  obtain ⟨trade, hmem⟩ := List.exists_mem_of_ne_nil trades hne
  have hbetween := hall trade hmem
  refine ⟨hall, hleast.elim (fun heq => ⟨trade, hmem, ?_⟩) id,
    hmost.elim (fun heq => ⟨trade, hmem, ?_⟩) id⟩
  · refine UInt64.le_antisymm ?_ hbetween.1
    rw [heq, UInt64.le_iff_toNat_le]
    exact Nat.le_of_lt_succ trade.timestampNs.toNat_lt
  · refine UInt64.le_antisymm hbetween.2 ?_
    rw [heq, UInt64.le_iff_toNat_le]
    exact Nat.zero_le _

/-- The range of some trades is determined by them. -/
theorem SpannedBy.unique {trades : List TradeTick} {range range' : UInt64 × UInt64}
    (h : SpannedBy trades range) (h' : SpannedBy trades range') : range = range' := by
  obtain ⟨hall, ⟨t, ht, hleast⟩, u, hu, hmost⟩ := h
  obtain ⟨hall', ⟨t', ht', hleast'⟩, u', hu', hmost'⟩ := h'
  refine Prod.ext (UInt64.le_antisymm ?_ ?_) (UInt64.le_antisymm ?_ ?_)
  · rw [← hleast']
    exact (hall t' ht').1
  · rw [← hleast]
    exact (hall' t ht).1
  · rw [← hmost]
    exact (hall' u hu).2
  · rw [← hmost']
    exact (hall u' hu').2

/-! ## The result -/

/-- What `time_range_ns` returns belongs to the trades that the loop finds. -/
theorem Holds.timeRangeNs_iff {n : Nat} {trades : List TradeTick} {b : TradeBuffer}
    (h : Holds n trades b) (hn : 0 < n) (range : UInt64 × UInt64) :
    b.timeRangeNs = some range ↔ SpannedBy b.iter.toList range := by
  have hfound : b.iter.toList = [] ↔ b.count = 0 := by
    have hhead := h.head
    have hcount := h.count
    have hlt := Nat.mod_lt trades.length hn
    rw [← List.length_eq_zero_iff, h.toList_iter, List.length_take, length_rtake, h.length]
    split_ifs at hhead with hroom
    · omega
    · omega
  rw [timeRangeNs]
  split_ifs with hempty
  · refine iff_of_false nofun fun hspanned => ?_
    obtain ⟨-, ⟨t, ht, -⟩, -⟩ := hspanned
    rw [hfound.mpr hempty] at ht
    exact absurd ht List.not_mem_nil
  · have hspanned := spannedBy_foldl_widen fun hnil => hempty (hfound.mp hnil)
    constructor
    · intro heq
      rw [← Option.some.inj heq]
      exact hspanned
    · exact fun hrange => congrArg some (hspanned.unique hrange)

/-- **When the latest trades are kept**: until the buffer is full, and whenever the number of
pushes is a multiple of the capacity. -/
theorem keepsLatest_iff {n : Nat} (hn : 0 < n) (trades : List TradeTick) :
    ((new n).pushAll trades).KeepsLatest n trades ↔ trades.length < n ∨ n ∣ trades.length := by
  have h := holds_pushAll hn trades
  rw [← h.toList_iter_eq_iff hn]
  constructor
  · exact KeepsLatest.iter
  · intro hiter
    refine ⟨hiter, fun side => ?_, fun range => ?_⟩
    · rw [TradeBuffer.totalVolume, hiter]
      rfl
    · rw [h.timeRangeNs_iff hn, hiter]

/-- A trade of one unit. -/
def unitTrade (timestampNs : UInt64) : TradeTick := ⟨"BTC", 100, 1, .buy, timestampNs⟩

/-- The theorem on two trades in a buffer for two. -/
theorem keepsLatest_two :
    ((new 2).pushAll [unitTrade 1, unitTrade 2]).KeepsLatest 2 [unitTrade 1, unitTrade 2] :=
  (keepsLatest_iff (by decide) _).mpr (.inr (by decide))

/-- **Three trades in a buffer for two**: only the second is found. -/
theorem not_forall_keepsLatest :
    ¬ ∀ (n : Nat) (trades : List TradeTick), 0 < n →
      ((new n).pushAll trades).KeepsLatest n trades := by
  intro h
  have hiter := (h 2 [unitTrade 1, unitTrade 2, unitTrade 3] (by decide)).iter
  revert hiter
  decide

end TradeBuffer

end StopTrading.Book
