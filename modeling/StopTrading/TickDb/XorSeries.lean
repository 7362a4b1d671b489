import StopTrading.TickDb.FloatCodec

/-!
# Series of floats and their xors

A series is its first value and the xors of its neighbours: the xors determine the series
(`series_xors`), and all xors are those of a series (`xors_series`).  What a codec that works
on xors keeps of a series is therefore what it keeps of a list of words (`forall_xors_iff`),
and where it stores a code for each of them, the series that are kept are those in which each
xor is the only one with its code (`forall_map_eq_iff`).

The second half is about the significant bits of one word: an odd number and the place where
it stands (`exists_odd_mul`).
-/

namespace StopTrading.TickDb

open MachineInt

/-! ## Series -/

/-- The series behind a value with these xors. -/
def series : BitVec 64 → List (BitVec 64) → List (BitVec 64)
  | _, [] => []
  | p, d :: ds => (d ^^^ p) :: series (d ^^^ p) ds

/-- A xor undoes itself, -/
theorem xor_xor_cancel (d p : BitVec 64) : (d ^^^ p) ^^^ p = d := by
  rw [BitVec.xor_assoc, BitVec.xor_self, BitVec.xor_zero]

/-- The xors determine the series. -/
theorem series_xors (p : BitVec 64) (xs : List (BitVec 64)) : series p (xors p xs) = xs := by
  induction xs generalizing p with
  | nil => rfl
  | cons x xs ih => rw [xors, series, xor_xor_cancel, ih]

/-- All xors are those of a series. -/
theorem xors_series (p : BitVec 64) (ds : List (BitVec 64)) : xors p (series p ds) = ds := by
  induction ds generalizing p with
  | nil => rfl
  | cons d ds ih => rw [series, xors, xor_xor_cancel, ih]

/-- so that a series is its first value and its xors. -/
theorem xors_inj {p : BitVec 64} {xs ys : List (BitVec 64)} : xors p xs = xors p ys ↔ xs = ys := by
  refine ⟨fun h => ?_, fun h => by rw [h]⟩
  rw [← series_xors p xs, h, series_xors]

/-- **A series is the only one with a property of its xors** if and only if its xors are the
only ones with it. -/
theorem forall_xors_iff {P : List (BitVec 64) → Prop} {p : BitVec 64} {xs : List (BitVec 64)} :
    (∀ ys, P (xors p ys) → ys = xs) ↔ ∀ es, P es → es = xors p xs := by
  constructor
  · intro h es hes
    rw [← h (series p es) (by rwa [xors_series]), xors_series]
  · intro h ys hys
    exact xors_inj.mp (h _ hys)

/-- Lists with the same codes are the same, if their elements are. -/
theorem eq_of_map_eq {α β : Type} {code : α → β} {ds : List α} :
    ∀ {es}, es.map code = ds.map code → (∀ d ∈ ds, ∀ e ∈ es, code e = code d → e = d) →
      es = ds := by
  induction ds with
  | nil => exact fun hes _ => List.map_eq_nil_iff.mp hes
  | cons d ds ih =>
      intro es hes hsame
      obtain ⟨e, es, rfl, he, hes⟩ := List.map_eq_cons_iff.mp hes
      rw [hsame d List.mem_cons_self e List.mem_cons_self he, ih hes fun d hd e' he' =>
        hsame d (List.mem_cons_of_mem _ hd) e' (List.mem_cons_of_mem _ he')]

/-- **A list is the only one with its codes** if and only if each of its elements is. -/
theorem forall_map_eq_iff {α β : Type} {code : α → β} {ds : List α} :
    (∀ es, es.map code = ds.map code → es = ds) ↔ ∀ d ∈ ds, ∀ e, code e = code d → e = d := by
  constructor
  · intro h d hd e he
    obtain ⟨before, after, rfl⟩ := List.append_of_mem hd
    have heq := h (before ++ e :: after) (by rw [List.map_append, List.map_append, List.map_cons,
      List.map_cons, he])
    exact (List.cons.inj (List.append_cancel_left heq)).1
  · exact fun h es hes => eq_of_map_eq hes fun d hd e _ => h d hd e

/-! ## Significant bits -/

/-- Zero has no significant bits, -/
theorem significantBits_zero : significantBits 0 = 0 := by decide

/-- and a word that has some is not zero. -/
theorem ne_zero_of_significantBits {x : Nat} (h : 0 < significantBits x) : x ≠ 0 := by
  rintro rfl
  exact absurd significantBits_zero h.ne'

/-- **A word is an odd number at a place.** -/
theorem exists_odd_mul {x : Nat} (hne : x ≠ 0) (h : x < 2 ^ 64) :
    ∃ m, x = m * 2 ^ trailingZeros x ∧ m % 2 = 1 ∧ 2 ^ (significantBits x - 1) ≤ m ∧
      m < 2 ^ significantBits x := by
  obtain ⟨hlead, hlower, -⟩ := leadingZeros_spec hne h
  obtain ⟨hsum, hpos, hupper⟩ := significantBits_spec hne h
  obtain ⟨-, hbit, -⟩ := trailingZeros_spec hne h
  refine ⟨x >>> trailingZeros x, (shiftRight_trailingZeros hne h).symm, ?_, ?_, hupper⟩
  · rw [Nat.testBit_eq_decide_div_mod_eq] at hbit
    rw [Nat.shiftRight_eq_div_pow]
    exact of_decide_eq_true hbit
  · rw [Nat.shiftRight_eq_div_pow, Nat.le_div_iff_mul_le (Nat.two_pow_pos _), ← pow_add,
      show significantBits x - 1 + trailingZeros x = 63 - leadingZeros x by omega]
    exact hlower

/-- The counts of an odd number at a place. -/
theorem counts_odd_mul {m t n : Nat} (hodd : m % 2 = 1) (hlower : 2 ^ n ≤ m)
    (hupper : m < 2 ^ (n + 1)) (h : m * 2 ^ t < 2 ^ 64) :
    trailingZeros (m * 2 ^ t) = t ∧ significantBits (m * 2 ^ t) = n + 1 ∧
      leadingZeros (m * 2 ^ t) + t + (n + 1) = 64 := by
  have hne : m ≠ 0 := by omega
  have hm : m < 2 ^ 64 := lt_of_le_of_lt (Nat.le_mul_of_pos_right m (Nat.two_pow_pos t)) h
  have hpos : m * 2 ^ t ≠ 0 := Nat.mul_ne_zero hne (Nat.two_pow_pos t).ne'
  have hzero : trailingZeros m = 0 := by
    rw [trailingZeros_eq_iff (by decide)]
    exact ⟨by simpa using hodd, fun j hj => absurd hj (Nat.not_lt_zero j)⟩
  have htrail := trailingZeros_mul_two_pow hne h
  obtain ⟨hlead, hlow, hhigh⟩ := leadingZeros_spec hne hm
  have hle : 63 - leadingZeros m ≤ n := by
    have := lt_of_le_of_lt hlow hupper
    have := (Nat.pow_lt_pow_iff_right (by decide)).mp this
    omega
  have hge : n < 64 - leadingZeros m :=
    (Nat.pow_lt_pow_iff_right (by decide)).mp (lt_of_le_of_lt hlower hhigh)
  have hsig : significantBits m = n + 1 := by
    unfold significantBits
    omega
  have hshift := significantBits_mul_two_pow hne h
  have hsum := (significantBits_spec hpos h).1
  omega

/-- So many leading zeros mean a word below a power of two. -/
theorem le_leadingZeros_iff {x k : Nat} (h : x < 2 ^ 64) (hk : k ≤ 64) :
    k ≤ leadingZeros x ↔ x < 2 ^ (64 - k) := by
  constructor
  · intro hle
    rcases Nat.eq_zero_or_pos x with rfl | hpos
    · exact Nat.two_pow_pos _
    · exact lt_of_lt_of_le (leadingZeros_spec hpos.ne' h).2.2
        (Nat.pow_le_pow_right (by decide) (by omega))
  · intro hlt
    have := le_leadingZeros hlt
    omega

/-- The leading zeros can be counted on the part above a place. -/
theorem leadingZeros_eq_of_div_eq {x y s : Nat} (hx : x < 2 ^ 64) (hy : y < 2 ^ 64)
    (hpos : 2 ^ s ≤ x) (heq : y / 2 ^ s = x / 2 ^ s) : leadingZeros y = leadingZeros x := by
  have hle : ∀ {u v : Nat}, u < 2 ^ 64 → v < 2 ^ 64 → 2 ^ s ≤ u → v / 2 ^ s = u / 2 ^ s →
      leadingZeros u ≤ leadingZeros v := by
    intro u v hu hv hplace hdiv
    have hne : u ≠ 0 := (lt_of_lt_of_le (Nat.two_pow_pos s) hplace).ne'
    obtain ⟨hlead, -, hupper⟩ := leadingZeros_spec hne hu
    have hs : s < 64 - leadingZeros u :=
      (Nat.pow_lt_pow_iff_right (by decide)).mp (lt_of_le_of_lt hplace hupper)
    have hsplit : 2 ^ (64 - leadingZeros u) = 2 ^ (64 - leadingZeros u - s) * 2 ^ s := by
      rw [← pow_add, Nat.sub_add_cancel hs.le]
    refine (le_leadingZeros_iff hv (by omega)).mpr ?_
    rw [hsplit, ← Nat.div_lt_iff_lt_mul (Nat.two_pow_pos s), hdiv,
      Nat.div_lt_iff_lt_mul (Nat.two_pow_pos s), ← hsplit]
    exact hupper
  have hpos' : 2 ^ s ≤ y := by
    rw [← Nat.one_mul (2 ^ s), ← Nat.le_div_iff_mul_le (Nat.two_pow_pos s), heq,
      Nat.le_div_iff_mul_le (Nat.two_pow_pos s), Nat.one_mul]
    exact hpos
  exact le_antisymm (hle hy hx hpos' heq.symm) (hle hx hy hpos heq)

/-- A word of few significant bits is a small number at a place. -/
theorem significantBits_le_of_dvd {x t n : Nat} (h : x < 2 ^ 64) (hdvd : 2 ^ t ∣ x)
    (hlt : x < 2 ^ (t + n)) : significantBits x ≤ n := by
  rcases Nat.eq_zero_or_pos x with rfl | hpos
  · rw [significantBits_zero]
    exact Nat.zero_le n
  · obtain ⟨hsum, -, -⟩ := significantBits_spec hpos.ne' h
    obtain ⟨-, hbit, -⟩ := trailingZeros_spec hpos.ne' h
    have htrail : t ≤ trailingZeros x := by
      obtain ⟨m, rfl⟩ := hdvd
      rw [Nat.mul_comm]
      rw [trailingZeros_mul_two_pow (by rintro rfl; simp at hpos) (by rwa [Nat.mul_comm])]
      exact Nat.le_add_left _ _
    have hlow := (leadingZeros_spec hpos.ne' h).2.1
    have := (Nat.pow_lt_pow_iff_right (by decide)).mp (lt_of_le_of_lt hlow hlt)
    omega

end StopTrading.TickDb
