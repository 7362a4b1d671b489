import Mathlib
import StopTrading.Library.CentralMoments
import StopTrading.Library.MachineInt
import StopTrading.Library.SlidingWindow

/-!
# Rolling features

`RingBuffer` keeps the last values in an array that is written around, with their sum and the
sum of their squares; `RollingFeatures` feeds three of them with prices, volumes and returns and
computes indicators from them.  Arithmetic is exact.

* `features_of_history` — after any updates, the features are those of the last prices, volumes
  and returns, as if they were computed from the whole history.
* `mean_after_clear` — `clear` leaves the array as it is, and `push` subtracts what it finds
  there: the mean is right afterwards only if the old values that were written over cancel.

### Design decisions

The array is a list of as many values as the ring has room for, and the writing position is a
word that counts all pushes and selects a place by its remainder. It would wrap after `2 ^ 64`
pushes, and histories are shorter than that. The source's counters are atomics, and the calls
considered come one after the other.

Exact arithmetic is the abstraction that counts here.  The sums are kept incrementally, by adding
what comes and subtracting what goes; in floating point they drift away from the sums of the
window, and no statement about equality would hold of them.

### What is load-bearing

`After` says what a ring holds in terms of two lists: `d`, what was in the array when counting
started, and `vs`, what was pushed since.  For a new ring `d` is zeros and contributes nothing;
after `clear` it is whatever was there, and the sums have forgotten it while the array has not.
Both results about the mean are one equation, `mean_eq_sub`.

The indicators are loops over offsets from the last value.  `forSome` is that loop, and
`forSome_eq` turns it into a fold over the window; the exponential average is taken from the
newest price to the oldest, so that the oldest counts most, which `foldl_ema` makes explicit.
-/

namespace StopTrading.Features

open CentralMoments MachineInt SlidingWindow

/-! ## The ring -/

/-- `MAX_WINDOW_SIZE`. -/
def maxWindowSize : Nat := 1024

/-- `RingBuffer`. -/
structure RingBuffer where
  data : List Rat
  writePos : Nat
  count : Nat
  capacity : Nat
  sum : Rat
  sumSq : Rat
  deriving Repr, DecidableEq

namespace RingBuffer

/-- `new`. -/
def new (capacity : Nat) : RingBuffer :=
  let capacity := min capacity maxWindowSize
  ⟨List.replicate capacity 0, 0, 0, capacity, 0, 0⟩

/-- `push`, into a buffer that has room for something. -/
def push (b : RingBuffer) (value : Rat) : RingBuffer :=
  let pos := b.writePos % b.capacity
  let oldValue := b.data.getD pos 0
  { b with
    data := b.data.set pos value
    writePos := (b.writePos + 1) % 2 ^ 64
    count := if b.count < b.capacity then b.count + 1 else b.count
    sum := b.sum - oldValue + value
    sumSq := b.sumSq - oldValue ^ 2 + value ^ 2 }

/-- `mean`. -/
def mean (b : RingBuffer) : Rat := if b.count = 0 then 0 else b.sum / b.count

/-- `variance`. -/
def variance (b : RingBuffer) : Rat :=
  if b.count < 2 then 0 else b.sumSq / b.count - (b.sum / b.count) ^ 2

/-- `get_offset`. -/
def getOffset (b : RingBuffer) (offset : Nat) : Option Rat :=
  if offset ≥ b.count then none
  else some (b.data.getD (u64 (b.writePos - 1 - offset + b.capacity) % b.capacity) 0)

/-- `latest`. -/
def latest (b : RingBuffer) : Rat :=
  if b.count = 0 then 0 else b.data.getD (u64 (b.writePos - 1) % b.capacity) 0

/-- `len`. -/
def len (b : RingBuffer) : Nat := b.count

/-- `clear`. -/
def clear (b : RingBuffer) : RingBuffer :=
  { b with writePos := 0, count := 0, sum := 0, sumSq := 0 }

/-- A push leaves the capacity. -/
@[simp] theorem capacity_push (b : RingBuffer) (value : Rat) :
    (b.push value).capacity = b.capacity := rfl

/-! ## What the ring holds -/

/-- **The array holds the last values**: those that were there at first, `d`, and those that
were pushed since, `vs`.  The sums are those of the array, less what they were at first. -/
structure After (b : RingBuffer) (d vs : List Rat) : Prop where
  /-- the array had its size -/
  length : d.length = b.capacity
  /-- its oldest value is where the next is written -/
  data : b.data.rotate (vs.length % b.capacity) = (d ++ vs).rtake b.capacity
  /-- which is counted -/
  writePos : b.writePos = vs.length
  /-- as are the values there are -/
  count : b.count = min vs.length b.capacity
  /-- the sum is that of the array, less the old one -/
  sum : b.sum = ((d ++ vs).rtake b.capacity).sum - d.sum
  /-- and so is that of the squares -/
  sumSq : b.sumSq = (((d ++ vs).rtake b.capacity).map (· ^ 2)).sum - (d.map (· ^ 2)).sum

namespace After

variable {b : RingBuffer} {d vs : List Rat}

/-- The array has its size. -/
theorem length_data (h : After b d vs) : b.data.length = b.capacity := by
  have hlength := congrArg List.length h.data
  rw [List.length_rotate, length_rtake, List.length_append, h.length] at hlength
  omega

/-- Nothing was pushed yet. -/
theorem start (hlength : b.data.length = b.capacity) (hwrite : b.writePos = 0)
    (hcount : b.count = 0) (hsum : b.sum = 0) (hsumSq : b.sumSq = 0) : After b b.data [] := by
  have hall : (b.data ++ []).rtake b.capacity = b.data := by
    rw [List.append_nil, rtake_of_le hlength.le]
  refine ⟨hlength, ?_, hwrite, by simpa using hcount, ?_, ?_⟩
  · rw [hall, List.length_nil, Nat.zero_mod, List.rotate_zero]
  · rw [hall, hsum, sub_self]
  · rw [hall, hsumSq, sub_self]

/-- A new ring holds zeros. -/
theorem new (capacity : Nat) :
    After (RingBuffer.new capacity) (List.replicate (min capacity maxWindowSize) 0) [] :=
  start (b := RingBuffer.new capacity) List.length_replicate rfl rfl rfl rfl

/-- **A push** of one more value. -/
theorem push (h : After b d vs) (hcapacity : 0 < b.capacity) (hlen : vs.length + 1 < 2 ^ 64)
    (v : Rat) : After (b.push v) d (vs ++ [v]) := by
  have hpos : vs.length % b.capacity < b.data.length := by
    rw [h.length_data]
    exact Nat.mod_lt _ hcapacity
  have hcons := rotate_eq_cons hpos
  have hold : b.data.getD (b.writePos % b.capacity) 0 = b.data[vs.length % b.capacity] := by
    rw [h.writePos, List.getD_eq_getElem]
  have hnext : (d ++ (vs ++ [v])).rtake b.capacity =
      (b.data.rotate (vs.length % b.capacity)).tail ++ [v] := by
    rw [h.data, ← List.append_assoc, rtake_concat _ v hcapacity]
    rw [List.length_append, h.length]
    exact Nat.le_add_right _ _
  refine ⟨h.length, ?_, ?_, ?_, ?_, ?_⟩
  · show (b.data.set (b.writePos % b.capacity) v).rotate ((vs ++ [v]).length % b.capacity) =
      (d ++ (vs ++ [v])).rtake b.capacity
    have hrotate := rotate_set hpos v
    rw [h.length_data, Nat.mod_add_mod] at hrotate
    rw [hnext, h.writePos, List.length_append, List.length_singleton]
    exact hrotate
  · show (b.writePos + 1) % 2 ^ 64 = _
    rw [h.writePos, Nat.mod_eq_of_lt hlen, List.length_append, List.length_singleton]
  · show (if b.count < b.capacity then b.count + 1 else b.count) = _
    rw [h.count, List.length_append, List.length_singleton]
    show _ = min (vs.length + 1) b.capacity
    split_ifs <;> omega
  · show b.sum - _ + v = _
    rw [hold, h.sum, ← h.data, hcons]
    show _ = ((d ++ (vs ++ [v])).rtake b.capacity).sum - d.sum
    rw [hnext, List.sum_append, List.sum_cons, List.sum_singleton]
    ring
  · show b.sumSq - _ ^ 2 + v ^ 2 = _
    rw [hold, h.sumSq, ← h.data, hcons]
    show _ = (((d ++ (vs ++ [v])).rtake b.capacity).map (· ^ 2)).sum - (d.map (· ^ 2)).sum
    rw [hnext, List.map_append, List.sum_append, List.map_cons, List.sum_cons, List.map_singleton,
      List.sum_singleton]
    ring

/-- **A value is found** by its distance from the last one. -/
theorem getOffset (h : After b d vs) (hcapacity : 0 < b.capacity)
    (hbound : vs.length + b.capacity < 2 ^ 64) {k : Nat} (hk : k < min vs.length b.capacity) :
    b.getOffset k = vs.reverse[k]? := by
  have hword : u64 (b.writePos - 1 - k + b.capacity) = vs.length - 1 - k + b.capacity := by
    rw [h.writePos, u64_of_range (by omega) (by omega)]
    omega
  have hplace : (b.capacity - 1 - k + vs.length % b.capacity) % b.capacity =
      (vs.length - 1 - k + b.capacity) % b.capacity := by
    rw [Nat.add_mod_mod]
    congr 1
    omega
  have hlt : (vs.length - 1 - k + b.capacity) % b.capacity < b.data.length := by
    rw [h.length_data]
    exact Nat.mod_lt _ hcapacity
  have harray : (b.data.rotate (vs.length % b.capacity))[b.capacity - 1 - k]? =
      b.data[(vs.length - 1 - k + b.capacity) % b.capacity]? := by
    rw [List.getElem?_rotate (by rw [h.length_data]; omega), h.length_data, hplace]
  have hwindow : ((d ++ vs).rtake b.capacity).reverse[k]? = vs.reverse[k]? := by
    rw [getElem?_reverse_rtake (by omega), List.reverse_append,
      List.getElem?_append_left (by rw [List.length_reverse]; omega)]
  rw [RingBuffer.getOffset, h.count, if_neg (Nat.not_le.mpr hk), hword, ← hwindow, ← h.data,
    List.getElem?_reverse (by rw [List.length_rotate, h.length_data]; omega), List.length_rotate,
    h.length_data, harray, List.getD_eq_getElem _ _ hlt, List.getElem?_eq_getElem hlt]

/-- The last value. -/
theorem latest (h : After b d vs) (hcapacity : 0 < b.capacity)
    (hbound : vs.length + b.capacity < 2 ^ 64) : b.latest = vs.getLastD 0 := by
  have hcount := h.count
  by_cases hvs : vs = []
  · simp [RingBuffer.latest, hcount, hvs]
  · have hpos : 0 < vs.length := List.length_pos_iff.mpr hvs
    have hfirst := h.getOffset hcapacity hbound (k := 0) (by omega)
    have hplace : u64 (b.writePos - 1) % b.capacity =
        u64 (b.writePos - 1 - (0 : Nat) + b.capacity) % b.capacity := by
      have hwrite := h.writePos
      rw [u64_of_range (by omega) (by omega), u64_of_range (by omega) (by omega)]
      have hadd : ((b.writePos : Int) - 1 - (0 : Nat) + b.capacity).toNat =
          ((b.writePos : Int) - 1).toNat + b.capacity := by omega
      rw [hadd, Nat.add_mod_right]
    rw [RingBuffer.getOffset, if_neg (by omega)] at hfirst
    rw [RingBuffer.latest, if_neg (by omega), hplace, List.getLastD_eq_getLast?]
    have hlast : vs.reverse[0]? = vs.getLast? := by
      rw [← List.head?_eq_getElem?, List.head?_reverse]
    rw [← hlast, ← hfirst]
    rfl

/-- The sums are those of the window, less what was written over of the old values. -/
theorem sum_window (hlength : d.length = b.capacity) (f : Rat → Rat) :
    (((d ++ vs).rtake b.capacity).map f).sum - (d.map f).sum =
      ((vs.rtake b.capacity).map f).sum - ((d.take vs.length).map f).sum := by
  have hold : d.rtake (b.capacity - vs.length) = d.drop vs.length := by
    rw [List.rtake, hlength]
    rcases Nat.le_total vs.length b.capacity with hle | hge
    · congr 1
      omega
    · rw [Nat.sub_eq_zero_of_le hge, Nat.sub_zero, List.drop_eq_nil_of_le (by omega),
        List.drop_eq_nil_of_le (by omega)]
  have hsplit : (d.map f).sum =
      ((d.take vs.length).map f).sum + ((d.drop vs.length).map f).sum := by
    rw [← List.sum_append, ← List.map_append, List.take_append_drop]
  rw [rtake_append, hold, List.map_append, List.sum_append, hsplit]
  ring

/-- The sum is that of the window, less what was written over of the old values, -/
theorem sum_eq (h : After b d vs) :
    b.sum = (vs.rtake b.capacity).sum - (d.take vs.length).sum := by
  simpa using h.sum.trans (by simpa using sum_window h.length id)

/-- and so is the sum of the squares. -/
theorem sumSq_eq (h : After b d vs) :
    b.sumSq = ((vs.rtake b.capacity).map (· ^ 2)).sum - ((d.take vs.length).map (· ^ 2)).sum :=
  h.sumSq.trans (sum_window h.length _)

/-- **The mean is that of the window**, less what was written over. -/
theorem mean_eq_sub (h : After b d vs) (hcapacity : 0 < b.capacity) :
    b.mean = CentralMoments.mean (vs.rtake b.capacity) -
      (d.take vs.length).sum / (vs.rtake b.capacity).length := by
  have hlength := length_rtake vs b.capacity
  rw [RingBuffer.mean, CentralMoments.mean, h.sum_eq, h.count, ← hlength]
  split_ifs with hzero
  · have hvs : vs = [] := List.length_eq_zero_iff.mp (by omega)
    simp [hvs]
  · rw [sub_div]

end After

/-! ## A ring that is never cleared -/

/-- The ring holds what was pushed since it was new. -/
def Fresh (b : RingBuffer) (n : Nat) (vs : List Rat) : Prop :=
  b.capacity = n ∧ After b (List.replicate n 0) vs

namespace Fresh

variable {b : RingBuffer} {n : Nat} {vs : List Rat}

/-- **A push** of one more value. -/
theorem push (h : Fresh b n vs) (hn : 0 < n) (hlen : vs.length + 1 < 2 ^ 64) (v : Rat) :
    Fresh (b.push v) n (vs ++ [v]) := by
  obtain ⟨rfl, hafter⟩ := h
  exact ⟨rfl, hafter.push hn hlen v⟩

/-- The latest value is the last one, and zero before there is one. -/
theorem latest_eq (h : Fresh b n vs) (hn : 0 < n) (hbound : vs.length + n < 2 ^ 64) :
    b.latest = vs.getLastD 0 := by
  obtain ⟨rfl, hafter⟩ := h
  exact hafter.latest hn hbound

/-- **The mean** is that of the window. -/
theorem mean_eq (h : Fresh b n vs) (hn : 0 < n) : b.mean = CentralMoments.mean (vs.rtake n) := by
  obtain ⟨rfl, hafter⟩ := h
  rw [hafter.mean_eq_sub hn]
  simp

/-- **The variance** is the mean square distance from the mean. -/
theorem variance_eq (h : Fresh b n vs) :
    b.variance = central 2 (vs.rtake n) / (vs.rtake n).length := by
  obtain ⟨rfl, hafter⟩ := h
  have hlength := length_rtake vs b.capacity
  have hsum : b.sum = (vs.rtake b.capacity).sum := by simp [hafter.sum_eq]
  have hsumSq : b.sumSq = ((vs.rtake b.capacity).map (· ^ 2)).sum := by simp [hafter.sumSq_eq]
  rw [RingBuffer.variance, hsum, hsumSq, hafter.count, ← hlength]
  generalize vs.rtake b.capacity = w
  split_ifs with hfew
  · match w, hfew with
    | [], _ => simp
    | [x], _ => simp [central, momentAbout, CentralMoments.mean]
  · have hpos : (w.length : Rat) ≠ 0 := by
      rw [Nat.cast_ne_zero]
      omega
    rw [central_two_eq, CentralMoments.mean]
    field_simp

end Fresh

/-! ## A ring that is cleared -/

/-- Some pushes. -/
def pushAll (b : RingBuffer) (vs : List Rat) : RingBuffer := vs.foldl push b

/-- What is done to a ring. -/
inductive Call where
  | push (value : Rat)
  | clear

/-- A call. -/
def step (b : RingBuffer) : Call → RingBuffer
  | .push value => b.push value
  | .clear => b.clear

/-- Some calls of a new ring. -/
def run (capacity : Nat) (cs : List Call) : RingBuffer := cs.foldl step (new capacity)

/-- The array keeps its size. -/
theorem length_data_run (capacity : Nat) (cs : List Call) :
    (run capacity cs).capacity = min capacity maxWindowSize ∧
      (run capacity cs).data.length = min capacity maxWindowSize := by
  induction cs using List.reverseRecOn with
  | nil => exact ⟨rfl, List.length_replicate⟩
  | append_singleton cs c ih =>
      rw [run, List.foldl_concat]
      cases c with
      | push value => exact ⟨ih.1, List.length_set.trans ih.2⟩
      | clear => exact ih

/-- **Some pushes**, into a ring that has room for something. -/
theorem After.pushAll {b : RingBuffer} {d : List Rat} (h : After b d [])
    (hcapacity : 0 < b.capacity) {vs : List Rat} (hlen : vs.length < 2 ^ 64) :
    After (b.pushAll vs) d vs ∧ (b.pushAll vs).capacity = b.capacity := by
  induction vs using List.reverseRecOn with
  | nil => exact ⟨h, rfl⟩
  | append_singleton vs v ih =>
      rw [List.length_append, List.length_singleton] at hlen
      obtain ⟨hafter, hsame⟩ := ih (by omega)
      rw [RingBuffer.pushAll, List.foldl_concat]
      exact ⟨hafter.push (hsame ▸ hcapacity) hlen v, hsame⟩

/-- **The mean after `clear`** is that of the values pushed since exactly if the values that they
took the place of cancel. -/
theorem mean_after_clear {capacity : Nat} (hcapacity : 0 < capacity) (cs : List Call)
    {vs : List Rat} (hvs : vs ≠ []) (hlen : vs.length < 2 ^ 64) :
    ((run capacity cs).clear.pushAll vs).mean =
        CentralMoments.mean (vs.rtake (min capacity maxWindowSize)) ↔
      ((run capacity cs).data.take vs.length).sum = 0 := by
  obtain ⟨hcap, hdata⟩ := length_data_run capacity cs
  have hpos : 0 < min capacity maxWindowSize := Nat.lt_min.mpr ⟨hcapacity, by decide⟩
  have hstart : After (run capacity cs).clear (run capacity cs).data [] :=
    After.start (hdata.trans hcap.symm) rfl rfl rfl rfl
  obtain ⟨hafter, hsame⟩ := hstart.pushAll (hcap ▸ hpos) hlen
  have hwindow : ((run capacity cs).clear.pushAll vs).capacity = min capacity maxWindowSize :=
    hsame.trans hcap
  have hmean := hafter.mean_eq_sub (hwindow ▸ hpos)
  rw [hwindow] at hmean
  have hlength : ((vs.rtake (min capacity maxWindowSize)).length : Rat) ≠ 0 := by
    have hone := List.length_pos_iff.mpr hvs
    rw [length_rtake, Nat.cast_ne_zero]
    omega
  rw [hmean, sub_eq_self, div_eq_zero_iff, or_iff_left hlength]

/-- Two values are forgotten, and the mean of the next two is wrong. -/
theorem mean_after_clear_two :
    ¬ ((run 2 [.push 10, .push 20]).clear.pushAll [30, 40]).mean =
      CentralMoments.mean (([30, 40] : List Rat).rtake (min 2 maxWindowSize)) :=
  (mean_after_clear (by decide) [.push 10, .push 20] (by simp) (by simp)).not.mpr
    (by decide +kernel)

end RingBuffer

/-! ## Features -/

/-- A loop over offsets, where what is not there is passed over. -/
def forSome {α β : Type} (get : Nat → Option α) (rounds : Nat) (step : β → α → β) (start : β) : β :=
  (List.range rounds).foldl
    (fun acc i =>
      match get i with
      | some x => step acc x
      | none => acc) start

/-- `RollingFeatures`. -/
structure RollingFeatures where
  prices : RingBuffer
  volumes : RingBuffer
  returns : RingBuffer
  rsi : Rat
  macd : Rat

namespace RollingFeatures

/-- `new`. -/
def new (windowSize : Nat) : RollingFeatures :=
  ⟨.new windowSize, .new windowSize, .new windowSize, 0, 0⟩

/-- A round of the loop of `update_rsi`: gains and losses. -/
def addReturn (acc : Rat × Rat) (ret : Rat) : Rat × Rat :=
  if ret > 0 then (acc.1 + ret, acc.2) else (acc.1, acc.2 - ret)

/-- `update_rsi`. -/
def updateRsi (f : RollingFeatures) : RollingFeatures :=
  if f.returns.len < 14 then f
  else
    let (gains, losses) := forSome f.returns.getOffset 14 addReturn (0, 0)
    let rs := if losses ≠ 0 then gains / losses else 100
    { f with rsi := 100 - 100 / (1 + rs) }

/-- `calculate_ema`. -/
def calculateEma (f : RollingFeatures) (period : Nat) : Rat :=
  if f.prices.len < period then f.prices.latest
  else
    let multiplier : Rat := 2 / (period + 1)
    forSome f.prices.getOffset period
      (fun ema price => price * multiplier + ema * (1 - multiplier)) f.prices.latest

/-- `update_macd`. -/
def updateMacd (f : RollingFeatures) : RollingFeatures :=
  if f.prices.len < 26 then f
  else { f with macd := f.calculateEma 12 - f.calculateEma 26 }

/-- The return of a price on the one before. -/
def returnOn (lastPrice price : Rat) : Rat :=
  if lastPrice ≠ 0 then (price - lastPrice) / lastPrice else 0

/-- `update`, with a price and a volume. -/
def update (f : RollingFeatures) (tick : Rat × Rat) : RollingFeatures :=
  let ret := returnOn f.prices.latest tick.1
  let f := { f with
    prices := f.prices.push tick.1
    volumes := f.volumes.push tick.2
    returns := f.returns.push ret }
  f.updateRsi.updateMacd

/-- `get_price`. -/
def getPrice (f : RollingFeatures) : Rat := f.prices.latest

/-- `get_volume`. -/
def getVolume (f : RollingFeatures) : Rat := f.volumes.latest

/-- `get_momentum`. -/
def getMomentum (f : RollingFeatures) : Rat := f.returns.mean

/-- `get_vwap`. -/
def getVwap (f : RollingFeatures) : Rat :=
  let count := min f.prices.len f.volumes.len
  let both := fun i =>
    (f.prices.getOffset i).bind fun price => (f.volumes.getOffset i).map fun volume =>
      (price, volume)
  let (totalPv, totalV) := forSome both count
    (fun acc tick => (acc.1 + tick.1 * tick.2, acc.2 + tick.2)) ((0 : Rat), (0 : Rat))
  if totalV = 0 then 0 else totalPv / totalV

end RollingFeatures

/-! ## Features of a history -/

/-- The returns of prices on the ones before, the first one on `last`. -/
def returnsOf : Rat → List Rat → List Rat
  | _, [] => []
  | last, price :: prices => RollingFeatures.returnOn last price :: returnsOf price prices

/-- One price more is one return more. -/
theorem returnsOf_concat (last : Rat) (prices : List Rat) (price : Rat) :
    returnsOf last (prices ++ [price]) =
      returnsOf last prices ++ [RollingFeatures.returnOn (prices.getLastD last) price] := by
  induction prices generalizing last with
  | nil => rfl
  | cons p prices ih =>
      rw [List.cons_append, returnsOf, ih, returnsOf, List.cons_append, List.getLastD_cons]

/-- There is a return for every price. -/
@[simp] theorem length_returnsOf (last : Rat) (prices : List Rat) :
    (returnsOf last prices).length = prices.length := by
  induction prices generalizing last with
  | nil => rfl
  | cons p prices ih => simp [returnsOf, ih]

/-- What was gained by some returns. -/
def gainsOf (rets : List Rat) : Rat := (rets.map fun ret => max ret 0).sum

/-- What was lost by some returns. -/
def lossesOf (rets : List Rat) : Rat := (rets.map fun ret => max (-ret) 0).sum

/-- **The index of relative strength**: the share of the gains, in percent; without losses it is
that of a hundredfold gain. -/
def rsiOf (rets : List Rat) : Rat :=
  if lossesOf rets = 0 then 10000 / 101
  else 100 * gainsOf rets / (gainsOf rets + lossesOf rets)

/-- **The average that is taken from the last price back**: the oldest price of the window weighs
most. -/
def emaOf (period : Nat) (prices : List Rat) : Rat :=
  let m : Rat := 2 / (period + 1)
  m * ∑ j ∈ Finset.range period, (1 - m) ^ j * (prices.rtake period).getD j 0 +
    (1 - m) ^ period * prices.getLastD 0

/-- The price of a volume. -/
def vwapOf (ticks : List (Rat × Rat)) : Rat :=
  if (ticks.map Prod.snd).sum = 0 then 0
  else (ticks.map fun tick => tick.1 * tick.2).sum / (ticks.map Prod.snd).sum

/-! ## What the loops compute -/

/-- Where nothing is missing, the loop is a fold. -/
theorem forSome_eq {α β : Type} {get : Nat → Option α} {xs : List α} {rounds : Nat}
    (h : ∀ i < rounds, get i = xs[i]?) (hrounds : rounds ≤ xs.length) (step : β → α → β)
    (start : β) : forSome get rounds step start = (xs.take rounds).foldl step start := by
  induction rounds with
  | zero => rfl
  | succ rounds ih =>
      have hlt : rounds < xs.length := hrounds
      rw [forSome, List.range_succ, List.foldl_concat, ← forSome,
        ih (fun i hi => h i (Nat.lt_succ_of_lt hi)) hlt.le, h rounds (Nat.lt_succ_self rounds),
        List.getElem?_eq_getElem hlt, List.take_succ_eq_append_getElem hlt, List.foldl_concat]

/-- **Values counted from the last one** are met in this order. -/
theorem forSome_reverse {α β : Type} {get : Nat → Option α} {xs : List α} {rounds : Nat}
    (h : ∀ i < rounds, get i = xs.reverse[i]?) (hrounds : rounds ≤ xs.length) (step : β → α → β)
    (start : β) : forSome get rounds step start = (xs.rtake rounds).reverse.foldl step start := by
  rw [forSome_eq h (by simpa using hrounds), List.rtake_eq_reverse_take_reverse,
    List.reverse_reverse]

/-- A sum does not depend on the order. -/
theorem foldl_addReturn (rets : List Rat) :
    rets.reverse.foldl RollingFeatures.addReturn (0, 0) = (gainsOf rets, lossesOf rets) := by
  induction rets with
  | nil => rfl
  | cons ret rets ih =>
      rw [List.reverse_cons, List.foldl_concat, ih, RollingFeatures.addReturn]
      split_ifs with hret
      · simp [gainsOf, lossesOf, hret.le, add_comm]
      · simp [gainsOf, lossesOf, not_lt.mp hret, add_comm, sub_eq_add_neg]

/-- **The exponential average** in closed form: the oldest price counts most, and the start
least. -/
theorem foldl_ema (m start : Rat) (prices : List Rat) :
    prices.reverse.foldl (fun ema price => price * m + ema * (1 - m)) start =
      m * ∑ j ∈ Finset.range prices.length, (1 - m) ^ j * prices.getD j 0 +
        (1 - m) ^ prices.length * start := by
  induction prices with
  | nil => simp
  | cons price prices ih =>
      have hlater : ∑ j ∈ Finset.range prices.length, (1 - m) ^ (j + 1) * prices.getD j 0 =
          (1 - m) * ∑ j ∈ Finset.range prices.length, (1 - m) ^ j * prices.getD j 0 := by
        rw [Finset.mul_sum]
        exact Finset.sum_congr rfl fun j _ => by ring
      rw [List.reverse_cons, List.foldl_concat, ih, List.length_cons, Finset.sum_range_succ']
      simp only [List.getD_cons_succ, List.getD_cons_zero, hlater]
      ring

/-- The sums for the price of a volume. -/
theorem foldl_vwap (ticks : List (Rat × Rat)) :
    ticks.reverse.foldl (fun acc tick => (acc.1 + tick.1 * tick.2, acc.2 + tick.2))
        ((0 : Rat), (0 : Rat)) =
      ((ticks.map fun tick => tick.1 * tick.2).sum, (ticks.map Prod.snd).sum) := by
  induction ticks with
  | nil => rfl
  | cons tick ticks ih =>
      rw [List.reverse_cons, List.foldl_concat, ih]
      simp [add_comm]

/-! ## The features follow the history -/

namespace RollingFeatures

/-- The rings hold what came since they were new, and the indicators are those of the history. -/
structure Follows (n : Nat) (ticks : List (Rat × Rat)) (f : RollingFeatures) : Prop where
  /-- the last prices -/
  prices : f.prices.Fresh n (ticks.map Prod.fst)
  /-- the last volumes -/
  volumes : f.volumes.Fresh n (ticks.map Prod.snd)
  /-- and the last returns -/
  returns : f.returns.Fresh n (returnsOf 0 (ticks.map Prod.fst))
  /-- from fourteen returns on -/
  rsi : f.rsi = if 14 ≤ min ticks.length n then
      rsiOf ((returnsOf 0 (ticks.map Prod.fst)).rtake 14) else 0
  /-- and from twenty-six prices on -/
  macd : f.macd = if 26 ≤ min ticks.length n then
      emaOf 12 (ticks.map Prod.fst) - emaOf 26 (ticks.map Prod.fst) else 0

/-- Nothing has come yet. -/
theorem follows_new (windowSize : Nat) :
    Follows (min windowSize maxWindowSize) [] (new windowSize) where
  prices := ⟨rfl, .new windowSize⟩
  volumes := ⟨rfl, .new windowSize⟩
  returns := ⟨rfl, .new windowSize⟩
  rsi := by simp [new]
  macd := by simp [new]

/-- **`update_rsi`** of a ring of returns. -/
theorem rsi_updateRsi {f : RollingFeatures} {n : Nat} {rets : List Rat}
    (h : f.returns.Fresh n rets) (hn : 0 < n) (hbound : rets.length + n < 2 ^ 64) :
    f.updateRsi.rsi = if 14 ≤ min rets.length n then rsiOf (rets.rtake 14) else f.rsi := by
  obtain ⟨rfl, hafter⟩ := h
  rw [updateRsi, RingBuffer.len, hafter.count]
  split_ifs with hfew hmany hmany
  · omega
  · rfl
  · have hloop : forSome f.returns.getOffset 14 addReturn (0, 0) =
        (gainsOf (rets.rtake 14), lossesOf (rets.rtake 14)) := by
      rw [forSome_reverse (fun i hi => hafter.getOffset hn hbound (by omega)) (by omega),
        foldl_addReturn]
    have hgains : 0 ≤ gainsOf (rets.rtake 14) :=
      List.sum_nonneg (by simp)
    have hlosses : 0 ≤ lossesOf (rets.rtake 14) :=
      List.sum_nonneg (by simp)
    simp only [hloop, rsiOf]
    generalize gainsOf (rets.rtake 14) = gains at *
    generalize lossesOf (rets.rtake 14) = losses at *
    by_cases hzero : losses = 0
    · simp only [hzero, ne_eq, not_true_eq_false, if_false, if_true]
      norm_num
    · have hpos : 0 < losses := lt_of_le_of_ne hlosses (Ne.symm hzero)
      have htotal : losses + gains ≠ 0 := (add_pos_of_pos_of_nonneg hpos hgains).ne'
      simp only [ne_eq, hzero, not_false_eq_true, if_true, if_false]
      field_simp
      ring
  · omega

/-- **`calculate_ema`** of a ring of prices. -/
theorem calculateEma_eq {f : RollingFeatures} {n : Nat} {prices : List Rat}
    (h : f.prices.Fresh n prices) (hn : 0 < n) (hbound : prices.length + n < 2 ^ 64) {period : Nat}
    (hperiod : period ≤ min prices.length n) : f.calculateEma period = emaOf period prices := by
  obtain ⟨rfl, hafter⟩ := h
  have hlength : (prices.rtake period).length = period := by
    rw [length_rtake]
    omega
  rw [calculateEma, RingBuffer.len, hafter.count, if_neg (Nat.not_lt.mpr hperiod),
    forSome_reverse (fun i hi => hafter.getOffset hn hbound (by omega)) (by omega), foldl_ema,
    hlength, hafter.latest hn hbound]
  rfl

/-- **`update_macd`** of a ring of prices. -/
theorem macd_updateMacd {f : RollingFeatures} {n : Nat} {prices : List Rat}
    (h : f.prices.Fresh n prices) (hn : 0 < n) (hbound : prices.length + n < 2 ^ 64) :
    f.updateMacd.macd =
      if 26 ≤ min prices.length n then emaOf 12 prices - emaOf 26 prices else f.macd := by
  have hlen : f.prices.len = min prices.length n := h.1 ▸ h.2.count
  rw [updateMacd, hlen]
  split_ifs with hfew hmany hmany
  · omega
  · rfl
  · show f.calculateEma 12 - f.calculateEma 26 = _
    rw [calculateEma_eq h hn hbound (by omega), calculateEma_eq h hn hbound hmany]
  · omega

/-- **`get_vwap`** of a history. -/
theorem getVwap_eq {f : RollingFeatures} {n : Nat} {ticks : List (Rat × Rat)}
    (h : Follows n ticks f) (hn : 0 < n) (hbound : ticks.length + n < 2 ^ 64) :
    f.getVwap = vwapOf (ticks.rtake n) := by
  obtain ⟨hpricesCap, hprices⟩ := h.prices
  obtain ⟨hvolumesCap, hvolumes⟩ := h.volumes
  have hlen : min f.prices.len f.volumes.len = min ticks.length n := by
    rw [RingBuffer.len, RingBuffer.len, hprices.count, hvolumes.count, hpricesCap, hvolumesCap,
      List.length_map, List.length_map, min_self]
  have hget : ∀ i < min ticks.length n, ((f.prices.getOffset i).bind fun price =>
      (f.volumes.getOffset i).map fun volume => (price, volume)) = ticks.reverse[i]? := by
    intro i hi
    rw [hprices.getOffset (by omega) (by simpa [hpricesCap] using hbound)
        (by simpa [hpricesCap] using hi),
      hvolumes.getOffset (by omega) (by simpa [hvolumesCap] using hbound)
        (by simpa [hvolumesCap] using hi), ← List.map_reverse, ← List.map_reverse,
      List.getElem?_map, List.getElem?_map]
    cases ticks.reverse[i]? <;> rfl
  have hwindow : ticks.rtake (min ticks.length n) = ticks.rtake n := by
    rcases Nat.le_total ticks.length n with hle | hge
    · rw [Nat.min_eq_left hle, rtake_of_le le_rfl, rtake_of_le hle]
    · rw [Nat.min_eq_right hge]
  rw [getVwap, hlen, forSome_reverse hget (by omega), hwindow, foldl_vwap]
  rfl

/-- The RSI is computed from the returns and changes no ring, -/
@[simp] theorem prices_updateRsi (f : RollingFeatures) : f.updateRsi.prices = f.prices := by
  unfold updateRsi
  split_ifs <;> rfl

/-- neither this one -/
@[simp] theorem volumes_updateRsi (f : RollingFeatures) : f.updateRsi.volumes = f.volumes := by
  unfold updateRsi
  split_ifs <;> rfl

/-- nor that one, -/
@[simp] theorem returns_updateRsi (f : RollingFeatures) : f.updateRsi.returns = f.returns := by
  unfold updateRsi
  split_ifs <;> rfl

/-- nor the other indicator. -/
@[simp] theorem macd_updateRsi (f : RollingFeatures) : f.updateRsi.macd = f.macd := by
  unfold updateRsi
  split_ifs <;> rfl

/-- `update_macd` changes nothing else. -/
theorem updateMacd_eq (f : RollingFeatures) :
    f.updateMacd = { f with macd := f.updateMacd.macd } := by
  unfold updateMacd
  split_ifs <;> rfl

/-- **An update** with one more tick. -/
theorem Follows.update {f : RollingFeatures} {n : Nat} {ticks : List (Rat × Rat)}
    (h : Follows n ticks f) (hn : 0 < n) (hbound : ticks.length + 1 + n < 2 ^ 64)
    (tick : Rat × Rat) : Follows n (ticks ++ [tick]) (f.update tick) := by
  let pushed : RollingFeatures := { f with
    prices := f.prices.push tick.1
    volumes := f.volumes.push tick.2
    returns := f.returns.push (returnOn f.prices.latest tick.1) }
  have hupdate : f.update tick = pushed.updateRsi.updateMacd := rfl
  have hprices : pushed.prices.Fresh n ((ticks ++ [tick]).map Prod.fst) := by
    rw [List.map_append]
    exact h.prices.push hn (by rw [List.length_map]; omega) tick.1
  have hvolumes : pushed.volumes.Fresh n ((ticks ++ [tick]).map Prod.snd) := by
    rw [List.map_append]
    exact h.volumes.push hn (by rw [List.length_map]; omega) tick.2
  have hreturns : pushed.returns.Fresh n (returnsOf 0 ((ticks ++ [tick]).map Prod.fst)) := by
    have hlatest : f.prices.latest = (ticks.map Prod.fst).getLastD 0 :=
      h.prices.latest_eq hn (by rw [List.length_map]; omega)
    rw [List.map_append, List.map_singleton, returnsOf_concat, ← hlatest]
    exact h.returns.push hn (by rw [length_returnsOf, List.length_map]; omega) _
  have hlength : (ticks ++ [tick]).length = ticks.length + 1 := by simp
  have hkept : pushed.updateRsi.prices.Fresh n ((ticks ++ [tick]).map Prod.fst) := by
    rw [prices_updateRsi]
    exact hprices
  rw [hupdate, updateMacd_eq]
  refine ⟨hkept, by simpa using hvolumes, by simpa using hreturns, ?_, ?_⟩
  · show pushed.updateRsi.rsi = _
    rw [rsi_updateRsi hreturns hn (by rw [length_returnsOf, List.length_map, hlength]; omega),
      length_returnsOf, List.length_map, hlength]
    show (if 14 ≤ min (ticks.length + 1) n then _ else f.rsi) = _
    rw [h.rsi]
    split_ifs <;> first | rfl | omega
  · show pushed.updateRsi.updateMacd.macd = _
    rw [macd_updateMacd hkept hn (by rw [List.length_map, hlength]; omega), List.length_map,
      hlength, macd_updateRsi]
    show (if 26 ≤ min (ticks.length + 1) n then _ else f.macd) = _
    rw [h.macd]
    split_ifs <;> first | rfl | omega

/-- **Any updates** are followed. -/
theorem follows_run {windowSize : Nat} (hwindow : 0 < windowSize) {ticks : List (Rat × Rat)}
    (hbound : ticks.length + maxWindowSize < 2 ^ 64) :
    Follows (min windowSize maxWindowSize) ticks (ticks.foldl update (new windowSize)) := by
  have hn : 0 < min windowSize maxWindowSize := Nat.lt_min.mpr ⟨hwindow, by decide⟩
  induction ticks using List.reverseRecOn with
  | nil => exact follows_new windowSize
  | append_singleton ticks tick ih =>
      rw [List.length_append, List.length_singleton] at hbound
      rw [List.foldl_concat]
      exact (ih (by omega)).update hn (by omega) tick

/-- What the getters give. -/
structure FeaturesOf (n : Nat) (ticks : List (Rat × Rat)) (f : RollingFeatures) : Prop where
  price : f.getPrice = (ticks.map Prod.fst).getLastD 0
  volume : f.getVolume = (ticks.map Prod.snd).getLastD 0
  priceMean : f.prices.mean = mean ((ticks.map Prod.fst).rtake n)
  volumeMean : f.volumes.mean = mean ((ticks.map Prod.snd).rtake n)
  momentum : f.getMomentum = mean ((returnsOf 0 (ticks.map Prod.fst)).rtake n)
  variance : f.returns.variance =
    central 2 ((returnsOf 0 (ticks.map Prod.fst)).rtake n) / min ticks.length n
  vwap : f.getVwap = vwapOf (ticks.rtake n)
  rsi : f.rsi = if 14 ≤ min ticks.length n then
      rsiOf ((returnsOf 0 (ticks.map Prod.fst)).rtake 14) else 0
  macd : f.macd = if 26 ≤ min ticks.length n then
      emaOf 12 (ticks.map Prod.fst) - emaOf 26 (ticks.map Prod.fst) else 0

/-- **The features are those of the history**, after any updates. -/
theorem features_of_history {windowSize : Nat} (hwindow : 0 < windowSize)
    {ticks : List (Rat × Rat)} (hbound : ticks.length + maxWindowSize < 2 ^ 64) :
    FeaturesOf (min windowSize maxWindowSize) ticks (ticks.foldl update (new windowSize)) := by
  have hn : 0 < min windowSize maxWindowSize := Nat.lt_min.mpr ⟨hwindow, by decide⟩
  have h := follows_run hwindow hbound
  have hfits : ticks.length + min windowSize maxWindowSize < 2 ^ 64 := by omega
  refine ⟨h.prices.latest_eq hn (by simpa using hfits),
    h.volumes.latest_eq hn (by simpa using hfits), h.prices.mean_eq hn, h.volumes.mean_eq hn,
    h.returns.mean_eq hn, ?_, getVwap_eq h hn hfits, h.rsi, h.macd⟩
  rw [h.returns.variance_eq, length_rtake, length_returnsOf, List.length_map, Nat.cast_min]

/-- Thirty ticks whose prices go up by two and down by one. -/
def zigzag : List (Rat × Rat) :=
  (List.range 30).map fun i =>
    (((100 + i / 2 + 2 * (i % 2) : Nat) : Rat), ((1 + i % 3 : Nat) : Rat))

/-- In a window of thirty they are enough for the RSI and the MACD. -/
theorem features_of_history_zigzag :
    FeaturesOf (min 30 maxWindowSize) zigzag (zigzag.foldl update (new 30)) ∧
      0 < (zigzag.foldl update (new 30)).rsi ∧ 0 < (zigzag.foldl update (new 30)).macd :=
  ⟨features_of_history (show 0 < 30 by decide)
    (show zigzag.length + maxWindowSize < 2 ^ 64 by simp [zigzag, maxWindowSize]),
    by decide +kernel, by decide +kernel⟩

end RollingFeatures

end StopTrading.Features
