import Mathlib.Algebra.Group.Nat.Defs
import Mathlib.Data.List.Basic
import Mathlib.Tactic.Common

/-!
# The multi-path manager

`MultiPathManager` as far as fragmentation and reassembly go.  `fragmentPayload` cuts
a payload into fragments for a strategy, `receiveFragment` puts a fragment into one of
64 reassembly buffers and returns a payload when the buffer counts itself complete.
Bytes travel in lists.  Which path a fragment takes, and when, plays no part in
reassembly and is left out.

A buffer is never reset.  What it returns is therefore a function of all the fragments
it has ever been given (`Holds`, `outcome`): the last one for every place, joined, once
their number modulo 256 reaches the expected total and no place is empty.

### Why buffers are functions of a history

A buffer has a slot for every place, a count of fragments, and is never emptied.  After any
deliveries it is determined by the list of all fragments that went to it: the last for each
place, and their number modulo 256.  `Holds` says so, and is kept by every delivery, without a
condition.  Everything that reassembly does right or wrong is then a question about lists of
fragments (`outcome`).
-/

namespace StopTrading.Network

/-- `PathState`, as far as fragmentation reads it. -/
structure PathState where
  isHealthy : Bool
  deriving Repr, DecidableEq

/-- `PacketFragment`, without the path and the time it was sent. -/
structure PacketFragment where
  packetId : Nat
  fragmentSeq : Nat
  totalFragments : Nat
  payload : List UInt8
  deriving Repr, DecidableEq

/-- `ReassemblyBuffer`; the 16 slots as a function of their index. -/
structure ReassemblyBuffer where
  fragments : Nat → Option PacketFragment
  totalExpected : Nat
  receivedCount : Nat

/-- `TransmissionStrategy`. -/
inductive TransmissionStrategy where
  | bestPath
  | loadBalance
  | redundant
  | erasureCoding (k n : Nat)
  deriving Repr, DecidableEq

/-- `MultiPathManager`; the 64 buffers as a function of their index. -/
structure MultiPathManager where
  paths : List PathState
  strategy : TransmissionStrategy
  reassemblyBuffers : Nat → Option ReassemblyBuffer
  nextPacketId : Nat

namespace ReassemblyBuffer

/-- `ReassemblyBuffer::new`. -/
def new (totalFragments : Nat) : ReassemblyBuffer := ⟨fun _ => none, min totalFragments 16, 0⟩

/-- `assemble`: the payloads of the expected places, unless one is missing. -/
def assemble (b : ReassemblyBuffer) : Option (List UInt8) :=
  ((List.range b.totalExpected).mapM fun i => (b.fragments i).map PacketFragment.payload).map
    List.flatten

/-- `add_fragment`. -/
def addFragment (b : ReassemblyBuffer) (fragment : PacketFragment) :
    Option (List UInt8) × ReassemblyBuffer :=
  let added :=
    if fragment.fragmentSeq < 16 then
      { b with
        fragments := Function.update b.fragments fragment.fragmentSeq (some fragment)
        receivedCount := (b.receivedCount + 1) % 256 }
    else b
  (if added.receivedCount ≥ added.totalExpected then added.assemble else none, added)

end ReassemblyBuffer

/-- The fragment of a payload that is cut into `n` parts of `chunkSize` bytes, for place
`i`; there is none where the payload has ended before. -/
def chunk (packetId n chunkSize : Nat) (payload : List UInt8) (i : Nat) : Option PacketFragment :=
  let start := i * chunkSize
  let stop := min (start + chunkSize) payload.length
  if start < payload.length then
    some
      { packetId := packetId
        fragmentSeq := i
        totalFragments := n
        payload := (payload.take stop).drop start }
  else none

namespace MultiPathManager

/-- A manager with the given paths: `MultiPathManager::new`, and whatever the probes
have said about the paths since. -/
def withPaths (paths : List PathState) (strategy : TransmissionStrategy) : MultiPathManager where
  paths := paths
  strategy := strategy
  reassemblyBuffers := fun _ => none
  nextPacketId := 0

/-- The number of paths `select_paths_lb` selects. -/
def healthyPaths (m : MultiPathManager) : Nat := (m.paths.filter PathState.isHealthy).length

/-- The fragments of `fragment_payload`. -/
def fragments (m : MultiPathManager) (payload : List UInt8) : List PacketFragment :=
  match m.strategy with
  | .bestPath | .redundant =>
      [{ packetId := m.nextPacketId, fragmentSeq := 0, totalFragments := 1, payload := payload }]
  | .loadBalance =>
      let chunkSize := (payload.length + m.healthyPaths - 1) / m.healthyPaths
      (List.range m.healthyPaths).filterMap
        (chunk m.nextPacketId m.healthyPaths chunkSize payload)
  | .erasureCoding _ n =>
      let chunkSize := (payload.length + n - 1) / n
      (List.range n).filterMap (chunk m.nextPacketId n chunkSize payload)

/-- `fragment_payload`. -/
def fragmentPayload (m : MultiPathManager) (payload : List UInt8) :
    List PacketFragment × MultiPathManager :=
  (m.fragments payload, { m with nextPacketId := (m.nextPacketId + 1) % 2 ^ 64 })

/-- `fragment_payload` for each of a sequence of payloads. -/
def fragmentAll : MultiPathManager → List (List UInt8) → List (List PacketFragment)
  | _, [] => []
  | m, payload :: payloads =>
      (m.fragmentPayload payload).1 :: (m.fragmentPayload payload).2.fragmentAll payloads

/-- `receive_fragment`. -/
def receiveFragment (m : MultiPathManager) (fragment : PacketFragment) :
    Option (List UInt8) × MultiPathManager :=
  let bufferIdx := fragment.packetId % 64
  let buffer := (m.reassemblyBuffers bufferIdx).getD (.new fragment.totalFragments)
  let added := buffer.addFragment fragment
  (added.1,
    { m with reassemblyBuffers := Function.update m.reassemblyBuffers bufferIdx (some added.2) })

/-- `receive_fragment` for each of a sequence of fragments: what each call returned. -/
def receiveAll : MultiPathManager → List PacketFragment →
    List (PacketFragment × Option (List UInt8))
  | _, [] => []
  | m, fragment :: fragments =>
      (fragment, (m.receiveFragment fragment).1) ::
        (m.receiveFragment fragment).2.receiveAll fragments

end MultiPathManager

/-! ## What a buffer holds -/

/-- The last fragment for a place. -/
def lastFor (i : Nat) (history : List PacketFragment) : Option PacketFragment :=
  history.reverse.find? fun fragment => fragment.fragmentSeq = i

/-- What has been delivered to one of the buffers. -/
def deliveredTo (bufferIdx : Nat) (deliveries : List PacketFragment) : List PacketFragment :=
  deliveries.filter fun fragment => fragment.packetId % 64 = bufferIdx

/-- **A buffer after a history of fragments.** -/
def bufferAfter (total : Nat) (history : List PacketFragment) : ReassemblyBuffer :=
  ⟨fun i => lastFor i history, total, history.length % 256⟩

/-- What a buffer returns when the last fragment of a history arrives. -/
def outcome (total : Nat) (history : List PacketFragment) : Option (List UInt8) :=
  if total ≤ history.length % 256 then (bufferAfter total history).assemble else none

/-- The buffers of a receiver are those of the deliveries it has seen. -/
def Holds (total : Nat) (m : MultiPathManager) (deliveries : List PacketFragment) : Prop :=
  ∀ bufferIdx, m.reassemblyBuffers bufferIdx =
    if deliveredTo bufferIdx deliveries = [] then none
    else some (bufferAfter total (deliveredTo bufferIdx deliveries))

/-- The last fragment is the last for its place, -/
theorem lastFor_concat_self (history : List PacketFragment) (fragment : PacketFragment) :
    lastFor fragment.fragmentSeq (history ++ [fragment]) = some fragment := by
  rw [lastFor, List.reverse_append]
  exact List.find?_cons_of_pos (decide_eq_true rfl)

/-- and for no other. -/
theorem lastFor_concat_of_ne {i : Nat} (history : List PacketFragment) {fragment : PacketFragment}
    (h : fragment.fragmentSeq ≠ i) : lastFor i (history ++ [fragment]) = lastFor i history := by
  rw [lastFor, List.reverse_append]
  exact List.find?_cons_of_neg (by simpa using h)

/-- **One delivery to a buffer.** -/
theorem addFragment_bufferAfter (total : Nat) (history : List PacketFragment)
    {fragment : PacketFragment} (hseq : fragment.fragmentSeq < 16) :
    (bufferAfter total history).addFragment fragment =
      (outcome total (history ++ [fragment]), bufferAfter total (history ++ [fragment])) := by
  have hcount : ((bufferAfter total history).receivedCount + 1) % 256 =
      (history ++ [fragment]).length % 256 := by
    rw [List.length_append, List.length_singleton, bufferAfter, Nat.mod_add_mod]
  have hadded : { bufferAfter total history with
        fragments := Function.update (bufferAfter total history).fragments fragment.fragmentSeq
          (some fragment)
        receivedCount := ((bufferAfter total history).receivedCount + 1) % 256 } =
      bufferAfter total (history ++ [fragment]) := by
    have hfragments : Function.update (fun i => lastFor i history) fragment.fragmentSeq
        (some fragment) = fun i => lastFor i (history ++ [fragment]) := by
      funext i
      by_cases hi : i = fragment.fragmentSeq
      · subst hi
        rw [Function.update_self, lastFor_concat_self]
      · rw [Function.update_of_ne hi, lastFor_concat_of_ne history (Ne.symm hi)]
    rw [hcount]
    unfold bufferAfter
    rw [hfragments]
  unfold ReassemblyBuffer.addFragment
  simp only [if_pos hseq]
  rw [hadded, hcount]
  rfl

/-- A fragment is delivered to the buffer of its packet, -/
theorem deliveredTo_concat_self (deliveries : List PacketFragment) (fragment : PacketFragment) :
    deliveredTo (fragment.packetId % 64) (deliveries ++ [fragment]) =
      deliveredTo (fragment.packetId % 64) deliveries ++ [fragment] := by
  rw [deliveredTo, List.filter_append, List.filter_cons_of_pos (by simp)]
  rfl

/-- and to no other. -/
theorem deliveredTo_concat_of_ne {bufferIdx : Nat} (deliveries : List PacketFragment)
    {fragment : PacketFragment} (h : bufferIdx ≠ fragment.packetId % 64) :
    deliveredTo bufferIdx (deliveries ++ [fragment]) = deliveredTo bufferIdx deliveries := by
  rw [deliveredTo, List.filter_append,
    List.filter_cons_of_neg (by simpa using Ne.symm h), List.filter_nil, List.append_nil]
  rfl

/-- **What `receive_fragment` returns**, and that the buffers keep being those of the
deliveries. -/
theorem Holds.receiveFragment {total : Nat} {m : MultiPathManager}
    {deliveries : List PacketFragment} (h : Holds total m deliveries) (htotal : total ≤ 16)
    {fragment : PacketFragment} (hfragment : fragment.totalFragments = total)
    (hseq : fragment.fragmentSeq < 16) :
    (m.receiveFragment fragment).1 =
        outcome total (deliveredTo (fragment.packetId % 64) (deliveries ++ [fragment])) ∧
      Holds total (m.receiveFragment fragment).2 (deliveries ++ [fragment]) := by
  have hbuffer : (m.reassemblyBuffers (fragment.packetId % 64)).getD
      (.new fragment.totalFragments) =
        bufferAfter total (deliveredTo (fragment.packetId % 64) deliveries) := by
    rw [h (fragment.packetId % 64), hfragment]
    split
    · rename_i hempty
      rw [hempty, Option.getD_none, ReassemblyBuffer.new, Nat.min_eq_left htotal]
      rfl
    · rfl
  have hadded := addFragment_bufferAfter total
    (deliveredTo (fragment.packetId % 64) deliveries) hseq
  rw [← hbuffer, ← deliveredTo_concat_self] at hadded
  unfold MultiPathManager.receiveFragment
  simp only [hadded, true_and]
  intro bufferIdx
  show Function.update m.reassemblyBuffers (fragment.packetId % 64) _ bufferIdx = _
  by_cases hidx : bufferIdx = fragment.packetId % 64
  · subst hidx
    rw [Function.update_self, if_neg]
    rw [deliveredTo_concat_self]
    exact List.append_ne_nil_of_right_ne_nil _ (List.cons_ne_nil _ _)
  · rw [Function.update_of_ne hidx, deliveredTo_concat_of_ne deliveries hidx]
    exact h bufferIdx

end StopTrading.Network
