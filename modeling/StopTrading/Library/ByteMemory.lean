import Mathlib.Data.List.GetD
import StopTrading.Library.ByteFile

/-!
# Byte memory

A memory has a byte at every address; `store` and `load` move byte strings, `storeLE` and
`loadLE` little-endian numbers.  A load finds what was stored at its place
(`load_store`, `loadLE_storeLE`) and is not affected by a store elsewhere
(`load_store_of_disjoint`, `loadLE_storeLE_of_disjoint`).

### Frame conditions

A shared segment is a record laid out by hand: each field is a store at an offset.  To read one
field after others were written, a proof needs one lemma for each pair of kinds (strings and
numbers), and that the intervals do not meet.  These are the `_of_disjoint` lemmas; their side
conditions are about constants and are left to `omega`.

A memory is total.  That an access stays inside the segment is a property of the program, to be
proved there; here an address without a byte does not exist.
-/

namespace StopTrading.ByteMemory

open ByteFile

/-- A byte at every address. -/
abbrev Memory := Nat → UInt8

/-- Store a byte string. -/
def store (addr : Nat) (bytes : List UInt8) (m : Memory) : Memory := fun i =>
  if addr ≤ i then bytes.getD (i - addr) (m i) else m i

/-- The bytes from an address on. -/
def load (m : Memory) (addr len : Nat) : List UInt8 := (List.range len).map fun i => m (addr + i)

/-- Store a number in `width` bytes. -/
def storeLE (addr width value : Nat) (m : Memory) : Memory := store addr (toLE width value) m

/-- The number in `width` bytes. -/
def loadLE (m : Memory) (addr width : Nat) : Nat := ofLE (load m addr width)

variable {m : Memory} {addr addr' len width value : Nat} {bytes : List UInt8}

/-- A load returns as many bytes as were asked for. -/
@[simp]
theorem length_load (m : Memory) (addr len : Nat) : (load m addr len).length = len := by
  rw [load, List.length_map, List.length_range]

/-- Nothing changes before the place, -/
theorem store_of_lt (h : addr' < addr) : store addr bytes m addr' = m addr' :=
  if_neg (Nat.not_le.mpr h)

/-- nor behind it, -/
theorem store_of_ge (h : addr + bytes.length ≤ addr') : store addr bytes m addr' = m addr' := by
  unfold store
  rw [if_pos (le_trans (Nat.le_add_right _ _) h), List.getD_eq_default _ _ (by omega)]

/-- and the bytes are at the place. -/
theorem store_add {i : Nat} (h : i < bytes.length) : store addr bytes m (addr + i) = bytes[i] := by
  unfold store
  rw [if_pos (Nat.le_add_right _ _), Nat.add_sub_cancel_left, List.getD_eq_getElem _ _ h]

/-- What was stored is there. -/
theorem load_store (m : Memory) (addr : Nat) (bytes : List UInt8) :
    load (store addr bytes m) addr bytes.length = bytes := by
  refine List.ext_getElem (length_load _ _ _) fun i _ hi => ?_
  simp only [load, List.getElem_map, List.getElem_range, store_add hi]

/-- **A store does not change what is elsewhere.** -/
theorem load_store_of_disjoint (h : addr + len ≤ addr' ∨ addr' + bytes.length ≤ addr) :
    load (store addr' bytes m) addr len = load m addr len := by
  refine List.map_congr_left fun i hi => ?_
  have hlt := List.mem_range.mp hi
  rcases h with hbefore | hafter
  · exact store_of_lt (by omega)
  · exact store_of_ge (by omega)

/-- A number of `width` bytes. -/
theorem loadLE_lt (m : Memory) (addr width : Nat) : loadLE m addr width < 256 ^ width := by
  have h := ofLE_lt (load m addr width)
  rwa [length_load] at h

/-- A number is loaded as it was stored, up to what does not fit. -/
theorem loadLE_storeLE (m : Memory) (addr width value : Nat) :
    loadLE (storeLE addr width value m) addr width = value % 256 ^ width := by
  have h := load_store m addr (toLE width value)
  rw [length_toLE] at h
  rw [loadLE, storeLE, h, ofLE_toLE]

/-- A number is not affected by one stored elsewhere, -/
theorem loadLE_storeLE_of_disjoint {width' : Nat}
    (h : addr + width ≤ addr' ∨ addr' + width' ≤ addr) :
    loadLE (storeLE addr' width' value m) addr width = loadLE m addr width := by
  rw [loadLE, storeLE, load_store_of_disjoint (by rwa [length_toLE]), loadLE]

/-- nor by a string stored elsewhere, -/
theorem loadLE_store_of_disjoint (h : addr + width ≤ addr' ∨ addr' + bytes.length ≤ addr) :
    loadLE (store addr' bytes m) addr width = loadLE m addr width := by
  rw [loadLE, load_store_of_disjoint h, loadLE]

/-- and a string not by a number. -/
theorem load_storeLE_of_disjoint (h : addr + len ≤ addr' ∨ addr' + width ≤ addr) :
    load (storeLE addr' width value m) addr len = load m addr len :=
  load_store_of_disjoint (by rwa [length_toLE])

end StopTrading.ByteMemory
