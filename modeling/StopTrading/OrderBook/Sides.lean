import StopTrading.OrderBook.Replay

/-!
# The levels of a side

A side of the order book is written by `upsert`, `apply_delta`, `remove` and `clear`, and
read level by level (`get`), from the best price on (`best`, `top_n`) and as a whole
(`total_volume`).

What it is for is `Represents`.  A history is the list of single writes that some calls make
(`SideCall.writes`); `LastWritten` says of a level that it was written with a quantity and
that nothing came to its price afterwards.  The levels of a side are those, whatever the
calls (`lookup_callAll_iff`), and everything that is read is read off them in the order of
their prices (`represents_callAll`).

### What is load-bearing

The map of a side is a map by price, but what its readers see is a list of levels, in an order
that depends on the side.  Between the two stands `Keeps`: the levels found by price are those
written last, and the cached volume is the sum over the map.  It is an invariant of single writes
(`Keeps.write`), and a call is the list of the writes that it makes (`call_eq`), so that a delta
needs no induction of its own.

From `Keeps` everything that is read follows without another induction: the map is walked in the
order of its prices (`pairwise_sorted`), so the levels of the walk are the levels written last,
each once, and a bid side reads the same walk backwards.

### Design decisions

* `LastWritten` speaks of the history alone.  It is the specification, so it must not mention how
  a side keeps its levels, or what a write to a price does to the one that is there.
* A quantity of zero is a write like any other that leaves nothing behind.  The levels of a side
  are then simply those of the last writes that leave something.
-/

namespace StopTrading.Book

open MachineInt

namespace OrderBookSide

/-- The values of the map, from the lowest price up. -/
def values (t : OrderBookSide) : List PriceLevel :=
  (t.levels.entries.insertionSort fun e e' => e.1 ≤ e'.1).map fun e => e.2

/-- `get`. -/
def get (t : OrderBookSide) (price : Int) : Option PriceLevel := t.levels.lookup price

/-- `remove`. -/
def remove (t : OrderBookSide) (price : Int) : OrderBookSide :=
  { t with levels := t.levels.erase price, cachedVolume := volume (t.levels.erase price) }

/-- `best`. -/
def best (t : OrderBookSide) : Option PriceLevel :=
  if t.isBid = true then t.values.getLast? else t.values.head?

/-- `best_price`. -/
def bestPrice (t : OrderBookSide) : Option Int := t.best.map PriceLevel.price

/-- `total_volume`. -/
def totalVolume (t : OrderBookSide) : Int := t.cachedVolume

/-- `Level::new` on a price level. -/
def toLevel (l : PriceLevel) : Level := ⟨l.price, l.quantity, l.orderCount⟩

/-- `top_n`. -/
def topN (t : OrderBookSide) (n : Nat) : List Level :=
  if t.isBid = true then (t.values.reverse.take n).map toLevel
  else (t.values.take n).map toLevel

end OrderBookSide

/-- A call on a side. -/
inductive SideCall where
  | upsert (price quantity : Int) (orderCount : Nat)
  | applyDelta (levels : List Level)
  | remove (price : Int)
  | clear
  deriving DecidableEq

/-- What a call leaves behind. -/
def OrderBookSide.call (t : OrderBookSide) : SideCall → OrderBookSide
  | .upsert price quantity orderCount => t.upsert price quantity orderCount
  | .applyDelta levels => t.applyDelta levels
  | .remove price => t.remove price
  | .clear => t.clear

/-- Some calls. -/
def OrderBookSide.callAll (t : OrderBookSide) (calls : List SideCall) : OrderBookSide :=
  calls.foldl call t

/-! ## What a side is for -/

/-- A single write. -/
inductive SideWrite where
  | written (level : Level)
  | removal (price : Int)
  | clearing
  deriving DecidableEq

/-- The writes that a call makes. -/
def SideCall.writes : SideCall → List SideWrite
  | .upsert price quantity orderCount => [.written ⟨price, quantity, orderCount⟩]
  | .applyDelta levels => levels.map .written
  | .remove price => [.removal price]
  | .clear => [.clearing]

/-- A write comes to a price. -/
def SideWrite.Touches (price : Int) : SideWrite → Prop
  | .written level => level.price = price
  | .removal removed => removed = price
  | .clearing => True

instance (price : Int) (w : SideWrite) : Decidable (w.Touches price) :=
  match w with
  | .written level => inferInstanceAs (Decidable (level.price = price))
  | .removal removed => inferInstanceAs (Decidable (removed = price))
  | .clearing => .isTrue trivial

/-- **The last quantity written** for a price, since it was removed or all were cleared. -/
def LastWritten (history : List SideWrite) (level : Level) : Prop :=
  level.quantity ≠ 0 ∧ ∃ before after, history = before ++ .written level :: after ∧
    ∀ w ∈ after, ¬ w.Touches level.price

/-- The price of a level comes before that of another, from the best one on. -/
def Better (isBid : Bool) (level level' : Level) : Prop :=
  if isBid = true then level'.price < level.price else level.price < level'.price

/-- **A side represents a history**: its levels are those written last, each at its price;
they are listed from the best price on, and the volume is the saturating sum of their
quantities from the lowest price up. -/
structure Represents (t : OrderBookSide) (history : List SideWrite) : Prop where
  /-- A level is found at a price exactly if it is the last one written there. -/
  get : ∀ price level, t.get price = some level ↔
    level.price = price ∧ LastWritten history (OrderBookSide.toLevel level)
  /-- There is one list of levels, from the best on, that all the other readers read. -/
  read : ∃ levels : List Level, levels.Pairwise (Better t.isBid) ∧
    (∀ level, level ∈ levels ↔ LastWritten history level) ∧
    (∀ n, t.topN n = levels.take n) ∧ t.bestPrice = levels.head?.map Level.price ∧
    t.totalVolume = (if t.isBid = true then levels.reverse else levels).foldl
      (fun total level => saturateI64 (total + level.quantity)) 0

/-! ## The last write -/

/-- Nothing was written by an empty history. -/
theorem not_lastWritten_nil {level : Level} : ¬ LastWritten [] level := by
  rintro ⟨-, before, after, h, -⟩
  exact absurd h.symm (List.append_ne_nil_of_right_ne_nil _ (List.cons_ne_nil _ _))

/-- One write more: it is the last one, or it comes to another price. -/
theorem lastWritten_concat_iff {history : List SideWrite} {w : SideWrite} {level : Level} :
    LastWritten (history ++ [w]) level ↔
      (level.quantity ≠ 0 ∧ w = .written level) ∨
        (¬ w.Touches level.price ∧ LastWritten history level) := by
  constructor
  · rintro ⟨hquantity, before, after, heq, hafter⟩
    rcases List.eq_nil_or_concat after with rfl | ⟨after, last, rfl⟩
    · exact .inl ⟨hquantity, (List.append_inj' heq rfl).2 |> List.cons.inj |>.1⟩
    · rw [List.concat_eq_append] at heq hafter
      rw [← List.cons_append, ← List.append_assoc] at heq
      obtain ⟨hhistory, hlast⟩ := List.append_inj' heq rfl
      obtain rfl := (List.cons.inj hlast).1
      refine .inr ⟨hafter w (by simp), hquantity, before, after, hhistory, fun x hx => ?_⟩
      exact hafter x (List.mem_append_left _ hx)
  · rintro (⟨hquantity, rfl⟩ | ⟨hother, hquantity, before, after, rfl, hafter⟩)
    · exact ⟨hquantity, history, [], rfl, fun w hw => absurd hw List.not_mem_nil⟩
    · refine ⟨hquantity, before, after ++ [w], ?_, fun x hx => ?_⟩
      · rw [List.append_assoc, List.cons_append]
      · rcases List.mem_append.mp hx with hx | hx
        · exact hafter x hx
        · rw [List.mem_singleton.mp hx]
          exact hother

/-! ## The levels of a side -/

namespace OrderBookSide

/-- A single write. -/
def write (t : OrderBookSide) : SideWrite → OrderBookSide
  | .written level => t.upsert level.price level.quantity level.orderCount
  | .removal price => t.remove price
  | .clearing => t.clear

/-- A call makes its writes. -/
theorem call_eq (t : OrderBookSide) (c : SideCall) : t.call c = c.writes.foldl write t := by
  cases c with
  | upsert price quantity orderCount => rfl
  | applyDelta levels =>
      rw [SideCall.writes, List.foldl_map]
      rfl
  | remove price => rfl
  | clear => rfl

/-- Some calls are the writes of all of them, one after the other. -/
theorem callAll_eq (calls : List SideCall) (t : OrderBookSide) :
    t.callAll calls = (calls.flatMap SideCall.writes).foldl write t := by
  induction calls generalizing t with
  | nil => rfl
  | cons c calls ih =>
      rw [List.flatMap_cons, List.foldl_append, ← call_eq]
      exact ih (t.call c)

/-- What a write leaves at the prices it comes to. -/
def leaves : SideWrite → Option PriceLevel
  | .written level =>
      if level.quantity = 0 then none
      else some ⟨level.price, level.quantity, level.orderCount⟩
  | .removal _ | .clearing => none

/-- **A write** decides its own prices and leaves the others as they are. -/
theorem lookup_write (t : OrderBookSide) (w : SideWrite) (price : Int) :
    (t.write w).levels.lookup price =
      if w.Touches price then leaves w else t.levels.lookup price := by
  cases w with
  | written level =>
      show (t.upsert level.price level.quantity level.orderCount).levels.lookup price =
        if level.price = price then leaves (.written level) else t.levels.lookup price
      unfold upsert leaves
      dsimp only
      split_ifs with hzero hprice hprice
      · rw [← hprice]
        exact AList.lookup_erase ..
      · exact AList.lookup_erase_ne (Ne.symm hprice)
      · rw [← hprice]
        exact AList.lookup_insert ..
      · exact AList.lookup_insert_ne (Ne.symm hprice)
  | removal removed =>
      show (t.levels.erase removed).lookup price =
        if removed = price then none else t.levels.lookup price
      split_ifs with hprice
      · rw [← hprice]
        exact AList.lookup_erase ..
      · exact AList.lookup_erase_ne (Ne.symm hprice)
  | clearing => exact (if_pos trivial).symm

/-- What is left there is the level that was written with a quantity. -/
theorem leaves_eq_some_iff {w : SideWrite} {price : Int} (htouches : w.Touches price)
    (level : PriceLevel) : leaves w = some level ↔
      level.price = price ∧ level.quantity ≠ 0 ∧ w = .written (toLevel level) := by
  cases w with
  | written new =>
      constructor
      · intro h
        rw [leaves] at h
        split_ifs at h with hzero
        cases h
        exact ⟨htouches, hzero, rfl⟩
      · rintro ⟨-, hquantity, hnew⟩
        cases hnew
        exact if_neg hquantity
  | removal removed => exact iff_of_false nofun fun h => SideWrite.noConfusion h.2.2
  | clearing => exact iff_of_false nofun fun h => SideWrite.noConfusion h.2.2

/-- **The levels of a history**, and their volume. -/
structure Keeps (t : OrderBookSide) (history : List SideWrite) : Prop where
  /-- The map holds the levels written last, each under its own price. -/
  lookup : ∀ price level, t.levels.lookup price = some level ↔
    level.price = price ∧ LastWritten history (toLevel level)
  /-- The volume that is kept up write by write is that of the map. -/
  cachedVolume : t.cachedVolume = volume t.levels

/-- A new side has no levels, and the empty history wrote none. -/
theorem keeps_new (isBid : Bool) : (new isBid).Keeps [] :=
  ⟨fun _ _ => iff_of_false nofun fun h => not_lastWritten_nil h.2, rfl⟩

/-- **A write** keeps the levels those of the history. -/
theorem Keeps.write {t : OrderBookSide} {history : List SideWrite} (h : t.Keeps history)
    (w : SideWrite) : (t.write w).Keeps (history ++ [w]) := by
  refine ⟨fun price level => ?_, by cases w <;> rfl⟩
  rw [lookup_write, lastWritten_concat_iff]
  split_ifs with htouches
  · rw [leaves_eq_some_iff htouches]
    refine and_congr_right fun hprice => (or_iff_left ?_).symm
    rintro ⟨hother, -⟩
    rw [← hprice] at htouches
    exact hother htouches
  · rw [h.lookup]
    refine and_congr_right fun hprice => ?_
    rw [← hprice] at htouches
    have hother : ¬ w.Touches (toLevel level).price := htouches
    rw [and_iff_right hother, or_iff_right]
    rintro ⟨-, rfl⟩
    exact htouches rfl

/-- **Any calls** leave the levels written last. -/
theorem keeps_callAll (isBid : Bool) (calls : List SideCall) :
    ((new isBid).callAll calls).Keeps (calls.flatMap SideCall.writes) := by
  suffices hmore : ∀ (later earlier : List SideWrite) (t : OrderBookSide), t.Keeps earlier →
      (later.foldl OrderBookSide.write t).Keeps (earlier ++ later) by
    rw [callAll_eq]
    exact hmore _ [] _ (keeps_new isBid)
  intro later
  induction later with
  | nil =>
      intro earlier t h
      rwa [List.append_nil]
  | cons w later ih =>
      intro earlier t h
      have hrest := ih (earlier ++ [w]) (t.write w) (h.write w)
      rwa [List.append_assoc, List.singleton_append] at hrest

/-- No call turns a side into the other one. -/
theorem isBid_callAll (isBid : Bool) (calls : List SideCall) :
    ((new isBid).callAll calls).isBid = isBid := by
  suffices hmore : ∀ (later : List SideWrite) (t : OrderBookSide),
      (later.foldl OrderBookSide.write t).isBid = t.isBid by
    rw [callAll_eq]
    exact hmore _ _
  intro later
  induction later with
  | nil => exact fun t => rfl
  | cons w later ih =>
      intro t
      rw [List.foldl_cons, ih]
      cases w <;> rfl

/-! ## Reading a side -/

/-- The entries of the map, by price. -/
def sorted (t : OrderBookSide) : List (Sigma fun _ : Int => PriceLevel) :=
  t.levels.entries.insertionSort fun e e' => e.1 ≤ e'.1

/-- The volume of a map, as a sum over its levels in the order of the walk. -/
theorem volume_eq (t : OrderBookSide) :
    volume t.levels = (t.values.map toLevel).foldl
      (fun total level => saturateI64 (total + level.quantity)) 0 := by
  rw [values, List.foldl_map, List.foldl_map]
  rfl

/-- The prices of the map are in order, and no price comes twice. -/
theorem pairwise_sorted (t : OrderBookSide) : t.sorted.Pairwise fun e e' => e.1 < e'.1 := by
  have hle : t.sorted.Pairwise fun e e' => e.1 ≤ e'.1 :=
    List.pairwise_insertionSort (fun e e' : Sigma fun _ : Int => PriceLevel => e.1 ≤ e'.1) _
  have hne : t.sorted.Pairwise fun e e' => e.1 ≠ e'.1 :=
    List.nodupKeys_iff_pairwise.mp
      ((List.perm_nodupKeys (List.perm_insertionSort _ _)).mpr t.levels.nodupKeys)
  exact hle.imp₂ (fun _ _ => lt_of_le_of_ne) hne

section Read

variable {t : OrderBookSide} {history : List SideWrite}

/-- An entry of the walk is the last write to its price. -/
theorem Keeps.mem_sorted (h : t.Keeps history) {e : Sigma fun _ : Int => PriceLevel} :
    e ∈ t.sorted ↔ e.2.price = e.1 ∧ LastWritten history (toLevel e.2) := by
  rw [sorted, (List.perm_insertionSort _ _).mem_iff, ← h.lookup]
  exact AList.mem_lookup_iff.symm

/-- The levels from the lowest price up are those written last. -/
theorem Keeps.mem_values (h : t.Keeps history) {level : Level} :
    level ∈ t.values.map toLevel ↔ LastWritten history level := by
  constructor
  · intro hmem
    obtain ⟨l, hl, rfl⟩ := List.mem_map.mp hmem
    obtain ⟨e, he, rfl⟩ := List.mem_map.mp hl
    exact (h.mem_sorted.mp he).2
  · intro hlast
    obtain ⟨l, rfl⟩ : ∃ l : PriceLevel, toLevel l = level :=
      ⟨⟨level.price, level.quantity, level.orderCount⟩, rfl⟩
    have hmem : (⟨l.price, l⟩ : Sigma fun _ : Int => PriceLevel) ∈ t.sorted :=
      h.mem_sorted.mpr ⟨rfl, hlast⟩
    exact List.mem_map_of_mem (List.mem_map_of_mem hmem)

/-- The levels of the walk come in the order of their prices. -/
theorem Keeps.pairwise_values (h : t.Keeps history) :
    (t.values.map toLevel).Pairwise fun level level' => level.price < level'.price := by
  rw [List.pairwise_map, values, List.pairwise_map]
  refine t.pairwise_sorted.imp_of_mem fun {e e'} he he' hlt => ?_
  show e.2.price < e'.2.price
  rwa [(h.mem_sorted.mp he).1, (h.mem_sorted.mp he').1]

/-- **What is read** are the levels of the history. -/
theorem Keeps.represents (h : t.Keeps history) : Represents t history := by
  refine ⟨h.lookup, ?_⟩
  have hvolume : t.totalVolume = _ := h.cachedVolume.trans t.volume_eq
  by_cases hbid : t.isBid = true
  · refine ⟨(t.values.map toLevel).reverse, ?_, fun level => ?_, fun n => ?_, ?_, ?_⟩
    · rw [List.pairwise_reverse]
      exact h.pairwise_values.imp fun hlt => by rwa [Better, if_pos hbid]
    · rw [List.mem_reverse, h.mem_values]
    · rw [topN, if_pos hbid, List.map_take, List.map_reverse]
    · rw [bestPrice, best, if_pos hbid, List.head?_reverse, List.getLast?_map, Option.map_map]
      rfl
    · rw [hvolume, if_pos hbid, List.reverse_reverse]
  · refine ⟨t.values.map toLevel, ?_, fun level => h.mem_values, fun n => ?_, ?_, ?_⟩
    · exact h.pairwise_values.imp fun hlt => by rwa [Better, if_neg hbid]
    · rw [topN, if_neg hbid, List.map_take]
    · rw [bestPrice, best, if_neg hbid, List.head?_map, Option.map_map]
      rfl
    · rw [hvolume, if_neg hbid]

end Read

/-- **A side represents its history**, whatever the calls. -/
theorem represents_callAll (isBid : Bool) (calls : List SideCall) :
    ((new isBid).callAll calls).isBid = isBid ∧
      Represents ((new isBid).callAll calls) (calls.flatMap SideCall.writes) :=
  ⟨isBid_callAll isBid calls, (keeps_callAll isBid calls).represents⟩

/-- Two quantities for one price in one delta, and a quantity of zero: the last one counts. -/
example :
    let t := (new true).callAll
      [.applyDelta [⟨100, 5, 1⟩, ⟨101, 2, 1⟩, ⟨100, 7, 2⟩, ⟨101, 0, 0⟩], .upsert 99 1 1]
    t.topN 5 = [⟨100, 7, 2⟩, ⟨99, 1, 1⟩] ∧ t.totalVolume = 8 ∧ t.bestPrice = some 100 := by
  decide

end OrderBookSide

end StopTrading.Book
