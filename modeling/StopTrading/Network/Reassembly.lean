import StopTrading.Library.Completion
import StopTrading.Network.Multipath
import Mathlib.Data.List.Nodup
import Mathlib.Data.List.Range

/-!
# The fragmentation round trip

A sender cuts a sequence of payloads into fragments, which reach a receiver in any
order, each at least once.  `RoundTrip` is what fragmentation is for: among what the
receiver returns for the fragments of a packet, the payload occurs once and nothing
else does.

Every fragment declares the number of parts the payload was to be cut into, and cutting
into parts of equal size may need fewer.  A buffer is found by the packet number modulo
64, is never reset, and returns the payload again with every fragment that arrives after
the last one was needed.  While the buffers fit (`BuffersFit`: one packet each, unless a
packet is a single fragment, and fewer than 256 fragments each, which is where the
counter wraps), these are the two ways to fail: the round trip succeeds just when every
payload fills all declared parts and no fragment is late
(`roundTrip_iff_filled_and_noneLate`).

### What is load-bearing

A buffer returns a payload whenever its count is the expected one *and* all places are filled;
the count goes on.  For a packet whose parts are all there, the count says nothing new, as it is
compared modulo nothing until 256: `BuffersFit` keeps it below.  So a buffer returns the payload
with the fragment that completes it and with every one behind that (`Packets.returned_eq`), and
the round trip is a count of those: `Completion` of the library is about how often a list
completes a set.

That every payload fills its declared parts is the other half.  Cutting five bytes into four
parts of two makes three, and the fourth place stays empty.
-/

namespace StopTrading.Network

open Completion

/-! ## The sender -/

/-- The number of fragments that is declared for a payload. -/
def MultiPathManager.declaredFragments (m : MultiPathManager) : Nat :=
  match m.strategy with
  | .bestPath | .redundant => 1
  | .loadBalance => m.healthyPaths
  | .erasureCoding _ n => n

/-- The size of a part, when a payload is cut into `n`. -/
def chunkSize (n : Nat) (payload : List UInt8) : Nat := (payload.length + n - 1) / n

/-- The fragments of a payload that is cut into `n` parts. -/
def cut (packetId n : Nat) (payload : List UInt8) : List PacketFragment :=
  (List.range n).filterMap (chunk packetId n (chunkSize n payload) payload)

/-- **A payload fills all parts** it is cut into: the last one begins before its end. -/
def Filled (n : Nat) (payload : List UInt8) : Prop :=
  (n - 1) * chunkSize n payload < payload.length

instance (n : Nat) (payload : List UInt8) : Decidable (Filled n payload) :=
  inferInstanceAs (Decidable (_ < _))

/-- The parts are enough for the payload. -/
theorem length_le_mul_chunkSize {n : Nat} (hn : 1 ≤ n) (payload : List UInt8) :
    payload.length ≤ n * chunkSize n payload := by
  have hdiv := Nat.div_add_mod (payload.length + n - 1) n
  have hmod := Nat.mod_lt (payload.length + n - 1) hn
  unfold chunkSize
  omega

/-- The fragments are those of the places that there is something for. -/
theorem mem_cut_iff {packetId n : Nat} {payload : List UInt8} {fragment : PacketFragment} :
    fragment ∈ cut packetId n payload ↔
      ∃ i < n, chunk packetId n (chunkSize n payload) payload i = some fragment := by
  simp only [cut, List.mem_filterMap, List.mem_range]

/-- The fragment for a place, and where there is one. -/
theorem chunk_eq_some_iff {packetId n size i : Nat} {payload : List UInt8}
    {fragment : PacketFragment} :
    chunk packetId n size payload i = some fragment ↔
      i * size < payload.length ∧
        fragment = ⟨packetId, i, n, (payload.drop (i * size)).take size⟩ := by
  have hslice : (payload.take (min (i * size + size) payload.length)).drop (i * size) =
      (payload.drop (i * size)).take size := by
    rw [← List.take_take, List.take_length, List.drop_take, Nat.add_sub_cancel_left]
  unfold chunk
  simp only [hslice]
  split
  · rename_i h
    rw [Option.some_inj, and_iff_right h, eq_comm]
  · rename_i h
    exact iff_of_false nofun fun h' => h h'.1

/-- What the fragments of a packet have in common. -/
theorem of_mem_cut {packetId n : Nat} {payload : List UInt8} {fragment : PacketFragment}
    (h : fragment ∈ cut packetId n payload) :
    fragment.packetId = packetId ∧ fragment.totalFragments = n ∧ fragment.fragmentSeq < n := by
  obtain ⟨i, hi, hchunk⟩ := mem_cut_iff.mp h
  obtain ⟨-, rfl⟩ := chunk_eq_some_iff.mp hchunk
  exact ⟨rfl, rfl, hi⟩

/-- A fragment of a packet is known by its place. -/
theorem eq_of_mem_cut {packetId n : Nat} {payload : List UInt8}
    {fragment fragment' : PacketFragment} (h : fragment ∈ cut packetId n payload)
    (h' : fragment' ∈ cut packetId n payload)
    (hseq : fragment.fragmentSeq = fragment'.fragmentSeq) : fragment = fragment' := by
  obtain ⟨i, hi, hchunk⟩ := mem_cut_iff.mp h
  obtain ⟨i', hi', hchunk'⟩ := mem_cut_iff.mp h'
  obtain ⟨-, rfl⟩ := chunk_eq_some_iff.mp hchunk
  obtain ⟨-, rfl⟩ := chunk_eq_some_iff.mp hchunk'
  cases hseq
  rfl

/-- The first part of a payload is not empty. -/
theorem cut_ne_nil (packetId : Nat) {n : Nat} (hn : 1 ≤ n) {payload : List UInt8}
    (hne : payload ≠ []) : cut packetId n payload ≠ [] := by
  have hstart : 0 * chunkSize n payload < payload.length := by
    rw [Nat.zero_mul]
    exact List.length_pos_iff.mpr hne
  exact List.ne_nil_of_mem (mem_cut_iff.mpr ⟨0, hn, chunk_eq_some_iff.mpr ⟨hstart, rfl⟩⟩)

/-- Slices of equal size, joined. -/
theorem flatten_slices (size : Nat) (payload : List UInt8) (k : Nat) :
    ((List.range k).map fun i => (payload.drop (i * size)).take size).flatten =
      payload.take (k * size) := by
  induction k with
  | zero => rw [Nat.zero_mul]; rfl
  | succ k ih =>
      rw [List.range_succ, List.map_append, List.flatten_append, ih, Nat.succ_mul, List.take_add]
      simp

/-- What a sender makes of a payload is the payload cut into the declared parts. -/
theorem fragments_eq_cut (m : MultiPathManager) {payload : List UInt8} (hpayload : payload ≠ []) :
    m.fragments payload = cut m.nextPacketId m.declaredFragments payload := by
  have hlength : 0 < payload.length := List.length_pos_iff.mpr hpayload
  have hone : cut m.nextPacketId 1 payload =
      [{ packetId := m.nextPacketId, fragmentSeq := 0, totalFragments := 1,
         payload := payload }] := by
    have hchunk : chunk m.nextPacketId 1 (chunkSize 1 payload) payload 0 =
        some ⟨m.nextPacketId, 0, 1, payload⟩ := by
      rw [chunk_eq_some_iff, Nat.zero_mul, List.drop_zero, chunkSize, Nat.div_one,
        Nat.add_sub_cancel, List.take_length]
      exact ⟨hlength, rfl⟩
    rw [cut, List.range_one, List.filterMap_cons_some hchunk, List.filterMap_nil]
  unfold MultiPathManager.fragments MultiPathManager.declaredFragments
  cases m.strategy with
  | bestPath => exact hone.symm
  | redundant => exact hone.symm
  | loadBalance => rfl
  | erasureCoding k n => rfl

/-- The fragments sent at a place of the sequence. -/
theorem getElem?_fragmentAll (payloads : List (List UInt8)) :
    ∀ (m : MultiPathManager) (p : Nat), m.nextPacketId < 2 ^ 64 →
      (m.fragmentAll payloads)[p]? = payloads[p]?.map fun payload =>
        { m with nextPacketId := (m.nextPacketId + p) % 2 ^ 64 }.fragments payload := by
  induction payloads with
  | nil => intro m p _; rfl
  | cons payload payloads ih =>
      intro m p hid
      cases p with
      | zero =>
          rw [Nat.add_zero, Nat.mod_eq_of_lt hid]
          rfl
      | succ p =>
          have htail := ih (m.fragmentPayload payload).2 p (Nat.mod_lt _ (by decide))
          rw [MultiPathManager.fragmentAll, List.getElem?_cons_succ, htail,
            List.getElem?_cons_succ]
          have hid' : ((m.nextPacketId + 1) % 2 ^ 64 + p) % 2 ^ 64 =
              (m.nextPacketId + (p + 1)) % 2 ^ 64 := by omega
          unfold MultiPathManager.fragmentPayload
          simp only [hid']

/-- All fragments that were sent have been delivered, and nothing else. -/
structure Delivered (sent : List (List PacketFragment)) (deliveries : List PacketFragment) :
    Prop where
  /-- nothing else comes -/
  all_sent : ∀ fragment ∈ deliveries, ∃ fragments ∈ sent, fragment ∈ fragments
  /-- and nothing is lost -/
  all_delivered : ∀ fragments ∈ sent, fragments ⊆ deliveries

/-- What a receiver returns for the fragments of a packet. -/
def returned (packetId : Nat) (results : List (PacketFragment × Option (List UInt8))) :
    List (List UInt8) :=
  results.filterMap fun x => if x.1.packetId = packetId then x.2 else none

/-- One result more. -/
theorem returned_cons (packetId : Nat) (x : PacketFragment × Option (List UInt8))
    (results : List (PacketFragment × Option (List UInt8))) :
    returned packetId (x :: results) =
      (if x.1.packetId = packetId then x.2 else none).toList ++ returned packetId results := by
  rw [returned, List.filterMap_cons]
  cases (if x.1.packetId = packetId then x.2 else none) <;> rfl

/-- **The round trip**: of every payload, what is returned for its fragments is the
payload, once. -/
def RoundTrip (receiver : MultiPathManager) (payloads : List (List UInt8))
    (deliveries : List PacketFragment) : Prop :=
  ∀ packetId payload, payloads[packetId]? = some payload →
    returned packetId (receiver.receiveAll deliveries) = [payload]

/-- **The buffers fit**: every packet has its own, unless packets are single fragments,
and none is given as many as 256 fragments. -/
structure BuffersFit (declared : Nat) (payloads : List (List UInt8))
    (deliveries : List PacketFragment) : Prop where
  /-- packets do not share a buffer -/
  distinct : declared = 1 ∨ payloads.length ≤ 64
  /-- whose count does not wrap -/
  count : ∀ bufferIdx, (deliveredTo bufferIdx deliveries).length < 256

/-- The sender declares between one and 16 fragments: at most eight paths, of which one
is healthy, and an erasure code of at most 16 parts. -/
def WellFormed (sender : MultiPathManager) : Prop :=
  1 ≤ sender.declaredFragments ∧ sender.declaredFragments ≤ 16

/-! ## What a buffer returns -/

/-- All places of a buffer have a fragment. -/
theorem mapM_eq_some {α β : Type} {f : α → Option β} {g : α → β} :
    ∀ {l : List α}, (∀ x ∈ l, f x = some (g x)) → l.mapM f = some (l.map g) := by
  intro l
  induction l with
  | nil => intro _; rfl
  | cons x l ih =>
      intro h
      rw [List.forall_mem_cons] at h
      rw [List.mapM_cons, h.1, ih h.2]
      rfl

/-- Some place has none. -/
theorem mapM_eq_none {α β : Type} {f : α → Option β} {x : α} :
    ∀ {l : List α}, x ∈ l → f x = none → l.mapM f = none := by
  intro l
  induction l with
  | nil => intro h; cases h
  | cons y l ih =>
      intro hmem hx
      rw [List.mapM_cons]
      rcases List.mem_cons.mp hmem with rfl | hmem
      · rw [hx]
        rfl
      · rw [ih hmem hx]
        cases f y <;> rfl

/-- A place is empty if nothing came for it. -/
theorem lastFor_eq_none_iff {i : Nat} {history : List PacketFragment} :
    lastFor i history = none ↔ ∀ fragment ∈ history, fragment.fragmentSeq ≠ i := by
  rw [lastFor, List.find?_eq_none]
  simp

/-- What a place holds has come, for that place. -/
theorem mem_of_lastFor {i : Nat} {history : List PacketFragment} {fragment : PacketFragment}
    (h : lastFor i history = some fragment) : fragment ∈ history ∧ fragment.fragmentSeq = i := by
  refine ⟨List.mem_reverse.mp (List.mem_of_find?_eq_some h), ?_⟩
  simpa using List.find?_some h

/-- A buffer with an empty place returns nothing. -/
theorem outcome_eq_none {total i : Nat} (hi : i < total) {history : List PacketFragment}
    (h : ∀ fragment ∈ history, fragment.fragmentSeq ≠ i) : outcome total history = none := by
  have hassemble : (bufferAfter total history).assemble = none := by
    have hplace : ((bufferAfter total history).fragments i).map PacketFragment.payload = none :=
      congrArg _ (lastFor_eq_none_iff.mpr h)
    have hmem : i ∈ List.range (bufferAfter total history).totalExpected := List.mem_range.mpr hi
    exact congrArg _ (mapM_eq_none hmem hplace)
  unfold outcome
  rw [hassemble, ite_self]

/-- A buffer that holds the fragments of a filled payload returns the payload. -/
theorem outcome_eq_some {total packetId : Nat} {payload : List UInt8} (htotal : 1 ≤ total)
    (hfilled : Filled total payload) {history : List PacketFragment}
    (hcount : total ≤ history.length % 256)
    (h : ∀ fragment ∈ cut packetId total payload,
      lastFor fragment.fragmentSeq history = some fragment) :
    outcome total history = some payload := by
  have hplaces : ∀ i ∈ List.range total, (lastFor i history).map PacketFragment.payload =
      some ((payload.drop (i * chunkSize total payload)).take (chunkSize total payload)) := by
    intro i hi
    rw [List.mem_range] at hi
    have hstart : i * chunkSize total payload < payload.length :=
      lt_of_le_of_lt (Nat.mul_le_mul_right _ (by omega)) hfilled
    have hmem : (⟨packetId, i, total, (payload.drop (i * chunkSize total payload)).take
        (chunkSize total payload)⟩ : PacketFragment) ∈ cut packetId total payload :=
      mem_cut_iff.mpr ⟨i, hi, chunk_eq_some_iff.mpr ⟨hstart, rfl⟩⟩
    rw [h _ hmem]
    rfl
  unfold outcome ReassemblyBuffer.assemble
  rw [if_pos hcount]
  show ((List.range total).mapM fun i => (lastFor i history).map _).map _ = _
  rw [mapM_eq_some hplaces, Option.map_some, flatten_slices,
    List.take_of_length_le (length_le_mul_chunkSize htotal payload)]

/-- Different places need as many fragments. -/
theorem le_length_of_cut_subset {total : Nat} (packetId : Nat) {payload : List UInt8}
    (hfilled : Filled total payload) {history : List PacketFragment}
    (h : cut packetId total payload ⊆ history) : total ≤ history.length := by
  have hnodup : (List.range total).Nodup := List.nodup_range
  have hsubset : List.range total ⊆ history.map PacketFragment.fragmentSeq := by
    intro i hi
    rw [List.mem_range] at hi
    have hstart : i * chunkSize total payload < payload.length :=
      lt_of_le_of_lt (Nat.mul_le_mul_right _ (by omega)) hfilled
    exact List.mem_map.mpr
      ⟨_, h (mem_cut_iff.mpr ⟨i, hi, chunk_eq_some_iff.mpr ⟨hstart, rfl⟩⟩), rfl⟩
  have hlength := hnodup.length_le_of_subset hsubset
  rwa [List.length_range, List.length_map] at hlength

/-- What has been delivered consists of the fragments of the packets. -/
structure Packets (declared : Nat) (payloads : List (List UInt8))
    (deliveries : List PacketFragment) : Prop where
  /-- every fragment is one of a packet -/
  all_cut : ∀ fragment ∈ deliveries, ∃ packetId payload,
    payloads[packetId]? = some payload ∧ fragment ∈ cut packetId declared payload
  /-- all of whose fragments come -/
  cut_subset : ∀ packetId payload, payloads[packetId]? = some payload →
    cut packetId declared payload ⊆ deliveries

section

variable {declared : Nat} {payloads : List (List UInt8)} {deliveries : List PacketFragment}

/-- A fragment is of the packet it names. -/
theorem Packets.mem_cut (h : Packets declared payloads deliveries) {fragment : PacketFragment}
    (hmem : fragment ∈ deliveries) {payload : List UInt8}
    (hpayload : payloads[fragment.packetId]? = some payload) :
    fragment ∈ cut fragment.packetId declared payload := by
  obtain ⟨packetId, payload', hpayload', hcut⟩ := h.all_cut fragment hmem
  obtain rfl := (of_mem_cut hcut).1
  rw [hpayload] at hpayload'
  cases hpayload'
  exact hcut

/-- A fragment that has arrived is in the buffer of its packet. -/
theorem mem_deliveredTo {fragment : PacketFragment} {arrived : List PacketFragment}
    (h : fragment ∈ arrived) : fragment ∈ deliveredTo (fragment.packetId % 64) arrived :=
  List.mem_filter.mpr ⟨h, decide_eq_true rfl⟩

/-- With few packets, all that is in a buffer is of one packet. -/
theorem Packets.packetId_eq (h : Packets declared payloads deliveries)
    (hfew : payloads.length ≤ 64) {arrived : List PacketFragment} (harrived : arrived ⊆ deliveries)
    {packetId : Nat} {payload : List UInt8} (hpayload : payloads[packetId]? = some payload)
    {fragment : PacketFragment} (hmem : fragment ∈ deliveredTo (packetId % 64) arrived) :
    fragment ∈ arrived ∧ fragment.packetId = packetId := by
  obtain ⟨hmem, hidx⟩ := List.mem_filter.mp hmem
  refine ⟨hmem, ?_⟩
  obtain ⟨packetId', payload', hpayload', hcut⟩ := h.all_cut fragment (harrived hmem)
  have hlt := (List.getElem?_eq_some_iff.mp hpayload).1
  have hlt' := (List.getElem?_eq_some_iff.mp hpayload').1
  have hidx' := of_decide_eq_true hidx
  rw [(of_mem_cut hcut).1] at hidx' ⊢
  omega

section Arrival

variable {before : List PacketFragment} {fragment : PacketFragment} {payload : List UInt8}

/-- A part that has arrived is what its place holds. -/
theorem Packets.lastFor_eq (h : Packets declared payloads deliveries)
    (distinct : declared = 1 ∨ payloads.length ≤ 64) (harrived : before ++ [fragment] ⊆ deliveries)
    (hpayload : payloads[fragment.packetId]? = some payload) {g : PacketFragment}
    (hg : g ∈ cut fragment.packetId declared payload) (hgarrived : g ∈ before ++ [fragment]) :
    lastFor g.fragmentSeq (deliveredTo (fragment.packetId % 64) (before ++ [fragment])) =
      some g := by
  rcases distinct with hone | hfew
  · -- the only place is the one just filled
    have hcut := h.mem_cut (harrived (List.mem_append_right _ List.mem_cons_self)) hpayload
    have hseq := (of_mem_cut hg).2.2
    have hseq' := (of_mem_cut hcut).2.2
    obtain rfl := eq_of_mem_cut hg hcut (by omega)
    rw [deliveredTo_concat_self]
    exact lastFor_concat_self _ _
  · have hmem := mem_deliveredTo hgarrived
    rw [(of_mem_cut hg).1] at hmem
    cases hfind : lastFor g.fragmentSeq
        (deliveredTo (fragment.packetId % 64) (before ++ [fragment])) with
    | none => exact absurd rfl (lastFor_eq_none_iff.mp hfind g hmem)
    | some g' =>
        obtain ⟨hmem', hseq⟩ := mem_of_lastFor hfind
        obtain ⟨hgarrived', hid⟩ := h.packetId_eq hfew harrived hpayload hmem'
        have hg' := h.mem_cut (harrived hgarrived') (hid ▸ hpayload)
        rw [hid] at hg'
        rw [eq_of_mem_cut hg' hg hseq]

/-- As long as no part for one of the places has arrived, nothing is returned. -/
theorem Packets.outcome_eq_none (h : Packets declared payloads deliveries)
    (distinct : declared = 1 ∨ payloads.length ≤ 64) (harrived : before ++ [fragment] ⊆ deliveries)
    (hpayload : payloads[fragment.packetId]? = some payload) {i : Nat} (hi : i < declared)
    (hnot : ∀ g ∈ cut fragment.packetId declared payload, g ∈ before ++ [fragment] →
      g.fragmentSeq ≠ i) :
    outcome declared (deliveredTo (fragment.packetId % 64) (before ++ [fragment])) = none := by
  refine Network.outcome_eq_none hi fun g hmem => ?_
  rcases distinct with hone | hfew
  · have hlast := List.mem_append_right before (List.mem_singleton_self fragment)
    have hcut := h.mem_cut (harrived hlast) hpayload
    have hseq := (of_mem_cut hcut).2.2
    exact absurd (by omega) (hnot fragment hcut hlast)
  · obtain ⟨hgarrived, hid⟩ := h.packetId_eq hfew harrived hpayload hmem
    have hg := h.mem_cut (harrived hgarrived) (hid ▸ hpayload)
    rw [hid] at hg
    exact hnot g hg hgarrived

/-- **What the receiver returns for a fragment**, while the buffers fit: the payload, if
it fills its parts and all of them have arrived. -/
theorem Packets.outcome_eq (h : Packets declared payloads deliveries) (hdeclared : 1 ≤ declared)
    (fit : BuffersFit declared payloads deliveries) {after : List PacketFragment}
    (hsplit : deliveries = before ++ fragment :: after)
    (hpayload : payloads[fragment.packetId]? = some payload) :
    outcome declared (deliveredTo (fragment.packetId % 64) (before ++ [fragment])) =
      if Filled declared payload ∧ cut fragment.packetId declared payload ⊆ before ++ [fragment]
      then some payload else none := by
  have hsublist : (before ++ [fragment]).Sublist deliveries := by
    rw [hsplit, List.append_cons before fragment after]
    exact List.sublist_append_left _ _
  have harrived : before ++ [fragment] ⊆ deliveries := hsublist.subset
  split
  · rename_i hcomplete
    obtain ⟨hfilled, hsubset⟩ := hcomplete
    refine outcome_eq_some hdeclared hfilled ?_ fun g hg =>
      h.lastFor_eq fit.distinct harrived hpayload hg (hsubset hg)
    have hcount : (deliveredTo (fragment.packetId % 64) (before ++ [fragment])).length < 256 :=
      lt_of_le_of_lt (hsublist.filter _).length_le (fit.count (fragment.packetId % 64))
    rw [Nat.mod_eq_of_lt hcount]
    refine le_length_of_cut_subset fragment.packetId hfilled fun g hg => ?_
    have hmem := mem_deliveredTo (hsubset hg)
    rwa [(of_mem_cut hg).1] at hmem
  · rename_i hcomplete
    by_cases hfilled : Filled declared payload
    · -- the place of a missing part is empty
      have hmissing : ∃ g ∈ cut fragment.packetId declared payload, g ∉ before ++ [fragment] := by
        by_contra hall
        push Not at hall
        exact hcomplete ⟨hfilled, hall⟩
      obtain ⟨g, hg, hnot⟩ := hmissing
      refine h.outcome_eq_none fit.distinct harrived hpayload (of_mem_cut hg).2.2
        fun g' hg' harrived' hseq => hnot ?_
      rwa [← eq_of_mem_cut hg' hg hseq]
    · -- the last place stays empty
      have hlast : declared - 1 < declared := by omega
      refine h.outcome_eq_none fit.distinct harrived hpayload hlast
        fun g hg _ hseq => hfilled ?_
      obtain ⟨i, hi, hchunk⟩ := mem_cut_iff.mp hg
      obtain ⟨hstart, rfl⟩ := chunk_eq_some_iff.mp hchunk
      cases hseq
      exact hstart

end Arrival

/-- **What is returned for a packet**: the payload, as often as a fragment of it arrives
that leaves it complete. -/
theorem Packets.returned_eq (h : Packets declared payloads deliveries) (hdeclared : 1 ≤ declared)
    (hdeclared' : declared ≤ 16) (fit : BuffersFit declared payloads deliveries) {packetId : Nat}
    {payload : List UInt8} (hpayload : payloads[packetId]? = some payload) :
    ∀ (rest before : List PacketFragment) (m : MultiPathManager), deliveries = before ++ rest →
      Holds declared m before →
      returned packetId (m.receiveAll rest) =
        List.replicate
          (if Filled declared payload then
            completeCount (cut packetId declared payload) (fun f => f.packetId = packetId)
              before rest
          else 0) payload := by
  intro rest
  induction rest with
  | nil =>
      intro before m _ _
      rw [completeCount, ite_self]
      rfl
  | cons fragment rest ih =>
      intro before m hsplit holds
      have hmem : fragment ∈ deliveries :=
        hsplit ▸ List.mem_append_right _ List.mem_cons_self
      obtain ⟨packetId', payload', hpayload', hcut⟩ := h.all_cut fragment hmem
      obtain ⟨hid, htotal, hseq⟩ := of_mem_cut hcut
      obtain ⟨hresult, holds'⟩ := holds.receiveFragment hdeclared' htotal (by omega)
      have hrest := ih (before ++ [fragment]) _ (by rw [hsplit, List.append_cons]) holds'
      subst hid
      rw [h.outcome_eq hdeclared fit hsplit hpayload'] at hresult
      rw [MultiPathManager.receiveAll, returned_cons, hrest, completeCount]
      -- a fragment of another packet returns nothing of this one
      by_cases hpacket : fragment.packetId = packetId
      · subst hpacket
        rw [hpayload] at hpayload'
        cases hpayload'
        rw [if_pos rfl, hresult]
        -- the payload comes back with each fragment that finds all of the packet delivered
        by_cases hfilled : Filled declared payload
        · by_cases hsubset : cut fragment.packetId declared payload ⊆ before ++ [fragment]
          · rw [if_pos ⟨hfilled, hsubset⟩, if_pos hfilled, if_pos hfilled, if_pos ⟨rfl, hsubset⟩,
              Nat.add_comm, List.replicate_succ]
            rfl
          · rw [if_neg fun h => hsubset h.2, if_pos hfilled, if_pos hfilled,
              if_neg fun h => hsubset h.2, Nat.zero_add]
            rfl
        · rw [if_neg fun h => hfilled h.1, if_neg hfilled, if_neg hfilled]
          rfl
      · have hother : ¬ (fragment.packetId = packetId ∧
            cut packetId declared payload ⊆ before ++ [fragment]) := fun h => hpacket h.1
        rw [if_neg hpacket, if_neg hother, Nat.zero_add]
        rfl

/-- A new receiver has seen no delivery. -/
theorem holds_withPaths (paths : List PathState) (strategy : TransmissionStrategy) :
    Holds declared (.withPaths paths strategy) [] := fun _ => rfl

/-- A payload is returned once just when it fills its parts and none arrives late. -/
theorem Packets.returned_eq_singleton_iff (h : Packets declared payloads deliveries)
    (hdeclared : 1 ≤ declared) (hdeclared' : declared ≤ 16)
    (fit : BuffersFit declared payloads deliveries) {packetId : Nat} {payload : List UInt8}
    (hpayload : payloads[packetId]? = some payload) (hne : payload ≠ []) (paths : List PathState)
    (strategy : TransmissionStrategy) :
    returned packetId ((MultiPathManager.withPaths paths strategy).receiveAll deliveries) =
        [payload] ↔
      Filled declared payload ∧
        NoneLate (cut packetId declared payload) (fun f => f.packetId = packetId) deliveries := by
  have hreturned := h.returned_eq hdeclared hdeclared' fit hpayload deliveries []
    (.withPaths paths strategy) rfl (holds_withPaths paths strategy)
  rw [hreturned]
  have hone : ∀ k : Nat, List.replicate k payload = [payload] ↔ k = 1 := by
    intro k
    constructor
    · intro h
      simpa using congrArg List.length h
    · rintro rfl
      rfl
  rw [hone]
  by_cases hfilled : Filled declared payload
  · have hstart : ¬ cut packetId declared payload ⊆ [] := fun hsub =>
      cut_ne_nil _ hdeclared hne (List.subset_nil.mp hsub)
    rw [if_pos hfilled, and_iff_right hfilled, noneLate_iff,
      completeCount_eq_one_iff (fun f hf => (of_mem_cut hf).1) [] hstart
        (h.cut_subset packetId payload hpayload)]
  · rw [if_neg hfilled]
    exact iff_of_false (by decide) fun h => hfilled h.1

end

/-! ## The round trip -/

section

variable {sender : MultiPathManager} {payloads : List (List UInt8)}
  {deliveries : List PacketFragment}

/-- As long as packet numbers do not wrap, the packet number is the place in the
sequence. -/
theorem sent_eq (hsender : sender.nextPacketId = 0) (hne : ∀ payload ∈ payloads, payload ≠ [])
    (packetId : Nat) (hlt : packetId < 2 ^ 64) :
    (sender.fragmentAll payloads)[packetId]? =
      payloads[packetId]?.map (cut packetId sender.declaredFragments) := by
  rw [getElem?_fragmentAll payloads sender packetId (by rw [hsender]; decide), hsender,
    Nat.zero_add, Nat.mod_eq_of_lt hlt]
  cases hpayload : payloads[packetId]? with
  | none => rfl
  | some payload =>
      have hmem := hne payload (List.mem_of_getElem? hpayload)
      exact congrArg some (fragments_eq_cut { sender with nextPacketId := packetId } hmem)

/-- With fewer than 256 fragments a buffer there are not many packets, and packet numbers
do not wrap. -/
theorem length_le_of_fit (hsender : sender.nextPacketId = 0)
    (hdeclared : 1 ≤ sender.declaredFragments) (hne : ∀ payload ∈ payloads, payload ≠ [])
    (delivered : Delivered (sender.fragmentAll payloads) deliveries)
    (fit : BuffersFit sender.declaredFragments payloads deliveries) :
    payloads.length ≤ 2 ^ 64 := by
  by_contra hmany
  have hnodup : ((List.range 256).map fun i => 64 * i).Nodup :=
    List.nodup_range.map fun i j hij => by omega
  have hsubset : ((List.range 256).map fun i => 64 * i) ⊆
      (deliveredTo 0 deliveries).map PacketFragment.packetId := by
    intro packetId hmem
    obtain ⟨i, hi, rfl⟩ := List.mem_map.mp hmem
    rw [List.mem_range] at hi
    have hpayload := List.getElem?_eq_getElem (l := payloads) (i := 64 * i) (by omega)
    have hsent := sent_eq hsender hne (64 * i) (by omega)
    rw [hpayload, Option.map_some] at hsent
    obtain ⟨f, hf⟩ := List.exists_mem_of_ne_nil _
      (cut_ne_nil (64 * i) hdeclared (hne _ (List.mem_of_getElem? hpayload)))
    have hdelivered := delivered.all_delivered _ (List.mem_of_getElem? hsent) hf
    have hid := (of_mem_cut hf).1
    refine List.mem_map.mpr ⟨f, List.mem_filter.mpr ⟨hdelivered, decide_eq_true ?_⟩, hid⟩
    rw [hid]
    omega
  have hlength := hnodup.length_le_of_subset hsubset
  rw [List.length_map, List.length_map, List.length_range] at hlength
  have := fit.count 0
  omega

/-- What has been delivered, by packets. -/
theorem packets_of_delivered (hsender : sender.nextPacketId = 0)
    (hne : ∀ payload ∈ payloads, payload ≠ []) (hlength : payloads.length ≤ 2 ^ 64)
    (delivered : Delivered (sender.fragmentAll payloads) deliveries) :
    Packets sender.declaredFragments payloads deliveries := by
  have hlt : ∀ packetId payload, payloads[packetId]? = some payload → packetId < 2 ^ 64 :=
    fun packetId payload hpayload =>
      lt_of_lt_of_le (List.getElem?_eq_some_iff.mp hpayload).1 hlength
  constructor
  · intro fragment hmem
    obtain ⟨fragments, hsent, hfragment⟩ := delivered.all_sent fragment hmem
    obtain ⟨packetId, hpacket⟩ := List.mem_iff_getElem?.mp hsent
    have hplace := hpacket
    rw [getElem?_fragmentAll payloads sender packetId (by rw [hsender]; decide),
      Option.map_eq_some_iff] at hplace
    obtain ⟨payload, hpayload, -⟩ := hplace
    rw [sent_eq hsender hne packetId (hlt packetId payload hpayload), hpayload,
      Option.map_some] at hpacket
    cases hpacket
    exact ⟨packetId, payload, hpayload, hfragment⟩
  · intro packetId payload hpayload
    have hsent := sent_eq hsender hne packetId (hlt packetId payload hpayload)
    rw [hpayload, Option.map_some] at hsent
    exact delivered.all_delivered _ (List.mem_of_getElem? hsent)

end

/-- **When fragmentation round-trips.**  For every sender and receiver, all sequences of
non-empty payloads and every order of delivery, with any duplicates, as long as the
buffers fit: just when every payload fills all the parts that are declared for it and no
fragment arrives after its packet is complete. -/
theorem roundTrip_iff_filled_and_noneLate (sender : MultiPathManager)
    (hsender : sender.nextPacketId = 0) (hstrategy : WellFormed sender)
    (receiverPaths : List PathState) (receiverStrategy : TransmissionStrategy)
    (payloads : List (List UInt8)) (hne : ∀ payload ∈ payloads, payload ≠ [])
    (deliveries : List PacketFragment)
    (delivered : Delivered (sender.fragmentAll payloads) deliveries)
    (fit : BuffersFit sender.declaredFragments payloads deliveries) :
    RoundTrip (.withPaths receiverPaths receiverStrategy) payloads deliveries ↔
      (∀ payload ∈ payloads, Filled sender.declaredFragments payload) ∧
      ∀ packetId fragments, (sender.fragmentAll payloads)[packetId]? = some fragments →
        NoneLate fragments (fun f => f.packetId = packetId) deliveries := by
  have hlength := length_le_of_fit hsender hstrategy.1 hne delivered fit
  have packets := packets_of_delivered hsender hne hlength delivered
  have hpacket := fun packetId payload (hpayload : payloads[packetId]? = some payload) =>
    packets.returned_eq_singleton_iff hstrategy.1 hstrategy.2 fit hpayload
      (hne payload (List.mem_of_getElem? hpayload)) receiverPaths receiverStrategy
  have hsent := fun packetId payload (hpayload : payloads[packetId]? = some payload) =>
    sent_eq hsender hne _ (lt_of_lt_of_le (List.getElem?_eq_some_iff.mp hpayload).1 hlength)
  constructor
  · intro h
    constructor
    · intro payload hmem
      obtain ⟨packetId, hpayload⟩ := List.mem_iff_getElem?.mp hmem
      exact ((hpacket packetId payload hpayload).mp (h packetId payload hpayload)).1
    · intro packetId fragments hfragments
      have hplace := hfragments
      rw [getElem?_fragmentAll payloads sender packetId (by rw [hsender]; decide),
        Option.map_eq_some_iff] at hplace
      obtain ⟨payload, hpayload, -⟩ := hplace
      rw [hsent packetId payload hpayload, hpayload, Option.map_some] at hfragments
      cases hfragments
      exact ((hpacket packetId payload hpayload).mp (h packetId payload hpayload)).2
  · rintro ⟨hfilled, hnoneLate⟩ packetId payload hpayload
    refine (hpacket packetId payload hpayload).mpr
      ⟨hfilled payload (List.mem_of_getElem? hpayload), hnoneLate packetId _ ?_⟩
    rw [hsent packetId payload hpayload, hpayload, Option.map_some]

/-- A sender of an erasure code of four parts. -/
def fourParts : MultiPathManager := .withPaths [⟨true⟩] (.erasureCoding 2 4)

/-- A payload of five bytes is cut into four declared parts, and fits into three. -/
theorem not_forall_roundTrip :
    ¬ ∀ (sender : MultiPathManager), sender.nextPacketId = 0 → WellFormed sender →
      ∀ (payloads : List (List UInt8)), (∀ payload ∈ payloads, payload ≠ []) →
      ∀ (deliveries : List PacketFragment),
        Delivered (sender.fragmentAll payloads) deliveries →
        RoundTrip (.withPaths [⟨true⟩] .bestPath) payloads deliveries := by
  intro h
  have hreturned := h fourParts rfl ⟨by decide, by decide⟩ [[1, 2, 3, 4, 5]] (by decide)
    (fourParts.fragmentAll [[1, 2, 3, 4, 5]]).flatten
    ⟨fun f hf => List.mem_flatten.mp hf, fun fs hfs f hf => List.mem_flatten.mpr ⟨fs, hfs, hf⟩⟩
    0 [1, 2, 3, 4, 5] rfl
  revert hreturned
  decide +kernel

/-- The payload of eight bytes fills them. -/
theorem roundTrip_fourParts :
    RoundTrip (.withPaths [⟨true⟩] .bestPath) [[1, 2, 3, 4, 5, 6, 7, 8]]
        (fourParts.fragmentAll [[1, 2, 3, 4, 5, 6, 7, 8]]).flatten ↔
      (∀ payload ∈ [[1, 2, 3, 4, 5, 6, 7, 8]], Filled 4 payload) ∧
      ∀ packetId fragments,
        (fourParts.fragmentAll [[1, 2, 3, 4, 5, 6, 7, 8]])[packetId]? = some fragments →
          NoneLate fragments (fun f => f.packetId = packetId)
            (fourParts.fragmentAll [[1, 2, 3, 4, 5, 6, 7, 8]]).flatten :=
  roundTrip_iff_filled_and_noneLate fourParts rfl ⟨by decide, by decide⟩ [⟨true⟩] .bestPath _
    (by decide) _
    ⟨fun f hf => List.mem_flatten.mp hf, fun fs hfs f hf => List.mem_flatten.mpr ⟨fs, hfs, hf⟩⟩
    ⟨Or.inr (by decide), fun bufferIdx =>
      lt_of_le_of_lt (List.length_filter_le _ _) (by decide +kernel)⟩

end StopTrading.Network
