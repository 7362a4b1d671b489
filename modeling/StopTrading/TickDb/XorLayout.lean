import StopTrading.TickDb.XorSeries
import Mathlib.Tactic.IntervalCases

/-!
# Words in a common layout

A block of words may be stored in a common layout: the least number of leading zeros, and the
greatest number of significant bits, of all of them.  The two are measured on different words,
so a word may have more bits than lie between them, and the bits below are cut (`cut`).

Which words are kept is a matter of all of them: a word with as many leading zeros as the
layout has is known from its other bits (`Fits.eq_of_leading`), and a word with more of them
can be changed (`Fits.exists_twin`), unless the number of significant bits of the block is
its own and leaves no choice (`Fits.eq_of_significant`, `Fits.exists_twin_of_significant`).
Together that is `KeptByLayout`.

### What is load-bearing

The argument is an exchange.  If one word can be replaced by another with the same bits, and the
layout of the block does not change, then the block is ambiguous (`layout_replace`).  A word
cannot be replaced if its leading zeros are those of the layout, or if it alone has the
significant bits of the layout and no other word has its bits and as many.  `KeptByLayout` is the
case analysis that comes of the two.

### Design decisions

The lemmas of `Fits` are about one number and two bounds and know nothing of a block.  Each comes
as a pair, a word that is the only one with its bits and a word that has a twin, so that both
directions of the result use the same list of cases.
-/

namespace StopTrading.TickDb

open MachineInt

/-! ## Words in a common layout -/

/-- A word that a layout of so many leading zeros and significant bits allows. -/
structure Fits (leading significant : Nat) (x : Nat) : Prop where
  lt : x < 2 ^ 64
  leading : leading ≤ leadingZeros x
  significant : significantBits x ≤ significant

namespace Fits

variable {L S s x y : Nat}

/-- A word that fits has at most the bits of the layout and those that are cut, -/
theorem lt_two_pow (h : Fits L S x) (hsum : L + S + s = 64) : x < 2 ^ (S + s) := by
  rw [show S + s = 64 - L by omega]
  exact (le_leadingZeros_iff h.lt (by omega)).mp h.leading

/-- and what is kept of it fits into the layout. -/
theorem div_lt (h : Fits L S x) (hsum : L + S + s = 64) : x / 2 ^ s < 2 ^ S := by
  rw [Nat.div_lt_iff_lt_mul (Nat.two_pow_pos s), ← pow_add]
  exact h.lt_two_pow hsum

/-- A word that has no more leading zeros than the layout is not cut by the shift. -/
theorem dvd (h : Fits L S x) (hsum : L + S + s = 64) (hne : x ≠ 0)
    (hlead : leadingZeros x = L) : 2 ^ s ∣ x := by
  obtain ⟨m, hm, -⟩ := exists_odd_mul hne h.lt
  obtain ⟨hcounts, -, -⟩ := significantBits_spec hne h.lt
  have hsignificant := h.significant
  rw [hm]
  exact Dvd.dvd.mul_left (pow_dvd_pow 2 (by omega)) m

/-- **A word that has no more leading zeros than the layout** is the only one with its
bits. -/
theorem eq_of_leading (hx : Fits L S x) (hy : Fits L S y) (hsum : L + S + s = 64) (hne : x ≠ 0)
    (hlead : leadingZeros x = L) (hshift : y / 2 ^ s = x / 2 ^ s) : y = x := by
  obtain ⟨-, hpos, -⟩ := significantBits_spec hne hx.lt
  have hsignificant := hx.significant
  have hplace : 2 ^ s ≤ x :=
    (Nat.pow_le_pow_right (by decide) (by omega)).trans (leadingZeros_spec hne hx.lt).2.1
  have hylead := leadingZeros_eq_of_div_eq hx.lt hy.lt hplace hshift
  have hback := Nat.div_mul_cancel (hx.dvd hsum hne hlead)
  have hyne : y ≠ 0 := by
    rintro rfl
    rw [Nat.zero_div] at hshift
    rw [← hshift] at hback
    omega
  rw [← hback, ← Nat.div_mul_cancel (hy.dvd hsum hyne (hylead.trans hlead)), hshift]

/-- **A word with more leading zeros than the layout** shares its bits with another one: the
highest bit that is cut can be chosen. -/
theorem exists_twin (h : Fits L S x) (hsum : L + S + s = 64) (hlead : L < leadingZeros x)
    (hS : 0 < S) (hs : 0 < s) : ∃ y, y ≠ x ∧ y / 2 ^ s = x / 2 ^ s ∧ Fits L S y := by
  obtain ⟨k, rfl⟩ : ∃ k, s = k + 1 := ⟨s - 1, by omega⟩
  obtain ⟨n, rfl⟩ : ∃ n, S = n + 1 := ⟨S - 1, by omega⟩
  have hlt : x < 2 ^ (n + (k + 1)) := by
    rw [show n + (k + 1) = 64 - (L + 1) by omega]
    exact (le_leadingZeros_iff h.lt (by omega)).mp hlead
  obtain ⟨q, hq⟩ : ∃ q, x / 2 ^ (k + 1) = q := ⟨_, rfl⟩
  have hhigh : q < 2 ^ n := by
    rw [← hq, Nat.div_lt_iff_lt_mul (Nat.two_pow_pos _), ← pow_add]
    exact hlt
  -- the bits that are kept, and one more below them
  have hfits : ∀ bit < 2, (2 * q + bit) * 2 ^ k / 2 ^ (k + 1) = q ∧
      Fits L (n + 1) ((2 * q + bit) * 2 ^ k) := by
    intro bit hbit
    have hsmall : 2 * q + bit < 2 ^ (n + 1) := by
      rw [pow_succ]
      omega
    have hbound : (2 * q + bit) * 2 ^ k < 2 ^ (k + (n + 1)) := by
      rw [pow_add, Nat.mul_comm]
      exact Nat.mul_lt_mul_of_pos_left hsmall (Nat.two_pow_pos k)
    have hlt64 : (2 * q + bit) * 2 ^ k < 2 ^ 64 :=
      lt_of_lt_of_le hbound (Nat.pow_le_pow_right (by decide) (by omega))
    refine ⟨?_, hlt64, ?_, ?_⟩
    · rw [pow_succ', Nat.mul_div_mul_right _ _ (Nat.two_pow_pos k)]
      omega
    · refine (le_leadingZeros_iff hlt64 (by omega)).mpr (lt_of_lt_of_le hbound ?_)
      exact Nat.pow_le_pow_right (by decide) (by omega)
    · exact significantBits_le_of_dvd hlt64 (Nat.dvd_mul_left _ _) hbound
  rw [hq]
  by_cases heq : (2 * q + 0) * 2 ^ k = x
  · refine ⟨_, ?_, hfits 1 (by decide)⟩
    have hpos := Nat.two_pow_pos k
    rw [Nat.add_mul] at heq ⊢
    omega
  · exact ⟨_, heq, hfits 0 (by decide)⟩

/-- **The only word with all significant bits**: nothing but its last bit is cut, or it is
three behind four places. -/
theorem eq_of_significant (hx : Fits L S x) (hy : Fits L S y) (hsum : L + S + s = 64)
    (hS : 1 < S) (hsx : significantBits x = S) (hsy : significantBits y = S)
    (hcut : leadingZeros x = L + 1 ∨ (L = 60 ∧ x = 3)) (hshift : y / 2 ^ s = x / 2 ^ s) :
    y = x := by
  have hxne : x ≠ 0 := ne_zero_of_significantBits (by omega)
  have hyne : y ≠ 0 := ne_zero_of_significantBits (by omega)
  rcases hcut with hlead | ⟨rfl, rfl⟩
  · obtain ⟨k, rfl⟩ : ∃ k, s = k + 1 := ⟨s - 1, by
      have := (significantBits_spec hxne hx.lt).1
      omega⟩
    have hplace : 2 ^ (k + 1) ≤ x :=
      (Nat.pow_le_pow_right (by decide) (by omega)).trans (leadingZeros_spec hxne hx.lt).2.1
    have hylead := leadingZeros_eq_of_div_eq hx.lt hy.lt hplace hshift
    have hxtrail : trailingZeros x = k := by
      have := (significantBits_spec hxne hx.lt).1
      omega
    have hytrail : trailingZeros y = k := by
      have := (significantBits_spec hyne hy.lt).1
      omega
    obtain ⟨m, hm, hodd, -⟩ := exists_odd_mul hxne hx.lt
    obtain ⟨m', hm', hodd', -⟩ := exists_odd_mul hyne hy.lt
    rw [hxtrail] at hm
    rw [hytrail] at hm'
    rw [hm, hm', pow_succ', Nat.mul_div_mul_right _ _ (Nat.two_pow_pos k),
      Nat.mul_div_mul_right _ _ (Nat.two_pow_pos k)] at hshift
    rw [hm, hm', show m' = m by omega]
  · have hthree : significantBits 3 = 2 := by decide
    obtain rfl : S = 2 := hsx.symm.trans hthree
    obtain rfl : s = 2 := by omega
    have hlt : y < 4 := by omega
    interval_cases y
    · exact absurd rfl hyne
    · exact absurd hsy (by decide)
    · exact absurd hsy (by decide)
    · rfl

/-- An odd number at a place within the layout. -/
theorem odd_mul {m t n : Nat} (hsum : L + (n + 1) + s = 64) (ht : t ≤ s) (hodd : m % 2 = 1)
    (hlower : 2 ^ n ≤ m) (hupper : m < 2 ^ (n + 1)) :
    Fits L (n + 1) (m * 2 ^ t) ∧ significantBits (m * 2 ^ t) = n + 1 := by
  have hbound : m * 2 ^ t < 2 ^ (n + 1 + t) := by
    rw [pow_add]
    exact Nat.mul_lt_mul_of_pos_right hupper (Nat.two_pow_pos t)
  have hlt : m * 2 ^ t < 2 ^ 64 :=
    lt_of_lt_of_le hbound (Nat.pow_le_pow_right (by decide) (by omega))
  obtain ⟨-, hsig, hcounts⟩ := counts_odd_mul hodd hlower hupper hlt
  exact ⟨⟨hlt, by omega, hsig.le⟩, hsig⟩

/-- Of three significant bits or more, the one above the lowest can be chosen. -/
theorem exists_odd_twin {m t n d : Nat} (hsum : L + (n + 1) + (2 + d + t) = 64) (hn : 2 ≤ n)
    (hodd : m % 2 = 1) (hlower : 2 ^ n ≤ m) (hupper : m < 2 ^ (n + 1)) :
    ∃ y, y ≠ m * 2 ^ t ∧ y / 2 ^ (2 + d + t) = m * 2 ^ t / 2 ^ (2 + d + t) ∧
      Fits L (n + 1) y ∧ significantBits y = n + 1 := by
  have hdiv : ∀ v, v * 2 ^ t / 2 ^ (2 + d + t) = v / 4 / 2 ^ d := by
    intro v
    rw [pow_add _ (2 + d), Nat.mul_div_mul_right _ _ (Nat.two_pow_pos t), pow_add,
      ← Nat.div_div_eq_div_mul]
    rfl
  obtain ⟨q, hq⟩ : ∃ q, 2 ^ n = 4 * q := ⟨2 ^ (n - 2), by
    rw [show (4 : Nat) = 2 ^ 2 from rfl, ← pow_add, Nat.add_sub_cancel' hn]⟩
  have hnext : 2 ^ (n + 1) = 8 * q := by
    rw [pow_succ, hq]
    omega
  obtain ⟨v, hv, hsame, hvodd⟩ : ∃ v, v ≠ m ∧ v / 4 = m / 4 ∧ v % 2 = 1 :=
    ⟨if m % 4 = 1 then m + 2 else m - 2, by split_ifs <;> omega⟩
  have hvlower : 2 ^ n ≤ v := by omega
  have hvupper : v < 2 ^ (n + 1) := by omega
  refine ⟨v * 2 ^ t, ?_, by rw [hdiv, hdiv, hsame],
    odd_mul hsum (show t ≤ 2 + d + t by omega) hvodd hvlower hvupper⟩
  exact fun heq => hv (Nat.eq_of_mul_eq_mul_right (Nat.two_pow_pos t) heq)

/-- Of two significant bits, the place can be chosen. -/
theorem exists_place_twin {t d : Nat} (hsum : L + 2 + (2 + d + t) = 64) (hroom : 0 < d + t) :
    ∃ y, y ≠ 3 * 2 ^ t ∧ y / 2 ^ (2 + d + t) = 3 * 2 ^ t / 2 ^ (2 + d + t) ∧
      Fits L 2 y ∧ significantBits y = 2 := by
  have hsmall : ∀ u, u ≤ d + t → 3 * 2 ^ u / 2 ^ (2 + d + t) = 0 := by
    intro u hu
    refine Nat.div_eq_of_lt ?_
    have hpow : 2 ^ (u + 2) ≤ 2 ^ (2 + d + t) := Nat.pow_le_pow_right (by decide) (by omega)
    rw [pow_add] at hpow
    have hpos := Nat.two_pow_pos u
    omega
  obtain ⟨t', hne, hle⟩ : ∃ t', t' ≠ t ∧ t' ≤ d + t :=
    ⟨if t = 0 then 1 else t - 1, by split_ifs <;> omega⟩
  refine ⟨3 * 2 ^ t', ?_, by rw [hsmall t' hle, hsmall t (by omega)],
    odd_mul hsum (show t' ≤ 2 + d + t by omega) rfl (by decide) (by decide)⟩
  intro heq
  exact hne (Nat.pow_right_injective le_rfl (Nat.eq_of_mul_eq_mul_left (by decide) heq))

/-- **Any other word with all significant bits** shares its bits with another one. -/
theorem exists_twin_of_significant (hx : Fits L S x) (hsum : L + S + s = 64) (hS : 1 < S)
    (hsx : significantBits x = S) (hlead : L + 2 ≤ leadingZeros x) (hthree : ¬ (L = 60 ∧ x = 3)) :
    ∃ y, y ≠ x ∧ y / 2 ^ s = x / 2 ^ s ∧ Fits L S y ∧ significantBits y = S := by
  have hxne : x ≠ 0 := ne_zero_of_significantBits (by omega)
  obtain ⟨hcounts, -, -⟩ := significantBits_spec hxne hx.lt
  obtain ⟨m, hm, hodd, hlower, hupper⟩ := exists_odd_mul hxne hx.lt
  rw [hsx] at hlower hupper hcounts
  obtain ⟨t, ht⟩ : ∃ t, trailingZeros x = t := ⟨_, rfl⟩
  rw [ht] at hm hcounts
  obtain ⟨n, rfl⟩ : ∃ n, S = n + 1 := ⟨S - 1, by omega⟩
  obtain ⟨d, rfl⟩ : ∃ d, s = 2 + d + t := ⟨s - 2 - t, by omega⟩
  rw [Nat.add_sub_cancel] at hlower
  by_cases hmany : 2 ≤ n
  · rw [hm]
    exact exists_odd_twin hsum hmany hodd hlower hupper
  · obtain rfl : n = 1 := by omega
    obtain rfl : m = 3 := by omega
    have hroom : 0 < d + t := by
      by_contra hnone
      obtain ⟨rfl, rfl⟩ : d = 0 ∧ t = 0 := by omega
      exact hthree ⟨by omega, hm⟩
    rw [hm]
    exact exists_place_twin hsum hroom

end Fits

/-! ## The layout of a block -/

/-- The least number of leading zeros of some words. -/
def minLeading (ds : List (BitVec 64)) : Nat :=
  ds.foldr (fun d least => min (leadingZeros d.toNat) least) 64

/-- The greatest number of significant bits of some words. -/
def maxSignificant (ds : List (BitVec 64)) : Nat :=
  ds.foldr (fun d most => max (significantBits d.toNat) most) 0

/-- The bits that the layout cuts from every word. -/
def cut (ds : List (BitVec 64)) : Nat := 64 - minLeading ds - maxSignificant ds

section Layout

variable {ds es pre post : List (BitVec 64)} {d e : BitVec 64} {k : Nat}

/-- Words with the same layout are cut in the same place. -/
theorem cut_congr (hlead : minLeading es = minLeading ds)
    (hsig : maxSignificant es = maxSignificant ds) : cut es = cut ds := by
  rw [cut, cut, hlead, hsig]

/-- The least number of leading zeros, -/
theorem le_minLeading_iff :
    k ≤ minLeading ds ↔ k ≤ 64 ∧ ∀ d ∈ ds, k ≤ leadingZeros d.toNat := by
  induction ds with
  | nil => simp [minLeading]
  | cons d ds ih =>
      rw [minLeading, List.foldr_cons, le_min_iff, ← minLeading, ih, List.forall_mem_cons]
      exact and_left_comm

/-- and the greatest of significant bits. -/
theorem maxSignificant_le_iff :
    maxSignificant ds ≤ k ↔ ∀ d ∈ ds, significantBits d.toNat ≤ k := by
  induction ds with
  | nil => simp [maxSignificant]
  | cons d ds ih =>
      rw [maxSignificant, List.foldr_cons, max_le_iff, ← maxSignificant, ih,
        List.forall_mem_cons]

/-- Some word has the least number, -/
theorem exists_minLeading (h : minLeading ds < 64) :
    ∃ d ∈ ds, leadingZeros d.toNat = minLeading ds := by
  by_contra hnone
  have hle : minLeading ds + 1 ≤ minLeading ds := le_minLeading_iff.mpr ⟨h, fun d hd => by
    have := (le_minLeading_iff.mp (le_refl (minLeading ds))).2 d hd
    exact lt_of_le_of_ne this fun heq => hnone ⟨d, hd, heq.symm⟩⟩
  omega

/-- and some word has the greatest. -/
theorem exists_maxSignificant (h : 0 < maxSignificant ds) :
    ∃ d ∈ ds, significantBits d.toNat = maxSignificant ds := by
  by_contra hnone
  have hle : maxSignificant ds ≤ maxSignificant ds - 1 :=
    maxSignificant_le_iff.mpr fun d hd => by
      have := maxSignificant_le_iff.mp (le_refl (maxSignificant ds)) d hd
      have := lt_of_le_of_ne this fun heq => hnone ⟨d, hd, heq⟩
      omega
  omega

/-- **The layout fits into a word.** -/
theorem minLeading_add_maxSignificant_le : minLeading ds + maxSignificant ds ≤ 64 := by
  have hle := (le_minLeading_iff.mp (le_refl (minLeading ds)))
  rcases Nat.eq_zero_or_pos (maxSignificant ds) with hzero | hpos
  · rw [hzero]
    exact hle.1
  · obtain ⟨d, hd, hsig⟩ := exists_maxSignificant hpos
    have hlead := hle.2 d hd
    rw [← hsig]
    unfold significantBits
    omega

/-- The layout and what it cuts make up a word. -/
theorem layout_sum (ds : List (BitVec 64)) : minLeading ds + maxSignificant ds + cut ds = 64 := by
  have hle : minLeading ds + maxSignificant ds ≤ 64 := minLeading_add_maxSignificant_le
  unfold cut
  omega

/-- Every word fits the layout. -/
theorem fits_of_mem (h : d ∈ ds) : Fits (minLeading ds) (maxSignificant ds) d.toNat :=
  ⟨d.isLt, (le_minLeading_iff.mp le_rfl).2 d h, maxSignificant_le_iff.mp le_rfl d h⟩

/-- Words of no significant bits are zero. -/
theorem maxSignificant_pos (h : minLeading ds < 64) : 0 < maxSignificant ds := by
  obtain ⟨d, hd, hlead⟩ := exists_minLeading h
  have hne : d.toNat ≠ 0 := by
    intro hzero
    rw [hzero] at hlead
    exact absurd hlead.symm h.ne
  exact lt_of_lt_of_le (significantBits_spec hne d.isLt).2.1 (fits_of_mem hd).significant

/-- A word may be replaced by another that fits, if others hold the layout. -/
theorem layout_replace (hfits : Fits (minLeading (pre ++ d :: post))
      (maxSignificant (pre ++ d :: post)) e.toNat)
    (hlead : ∃ x ∈ pre ++ post, leadingZeros x.toNat = minLeading (pre ++ d :: post))
    (hsig : significantBits e.toNat = maxSignificant (pre ++ d :: post) ∨
      ∃ x ∈ pre ++ post, significantBits x.toNat = maxSignificant (pre ++ d :: post)) :
    minLeading (pre ++ e :: post) = minLeading (pre ++ d :: post) ∧
      maxSignificant (pre ++ e :: post) = maxSignificant (pre ++ d :: post) := by
  have hother : ∀ x ∈ pre ++ post, ∀ y, x ∈ pre ++ y :: post := fun x hx y =>
    List.perm_middle.mem_iff.mpr (List.mem_cons_of_mem y hx)
  have hall : ∀ x ∈ pre ++ e :: post,
      Fits (minLeading (pre ++ d :: post)) (maxSignificant (pre ++ d :: post)) x.toNat := by
    intro x hx
    rcases List.mem_cons.mp (List.perm_middle.mem_iff.mp hx) with rfl | hx
    · exact hfits
    · exact fits_of_mem (hother x hx d)
  constructor
  · obtain ⟨x, hx, hxlead⟩ := hlead
    refine le_antisymm ?_ (le_minLeading_iff.mpr ⟨?_, fun y hy => (hall y hy).leading⟩)
    · rw [← hxlead]
      exact (fits_of_mem (hother x hx e)).leading
    · exact (le_minLeading_iff.mp le_rfl).1
  · refine le_antisymm (maxSignificant_le_iff.mpr fun y hy => (hall y hy).significant) ?_
    rcases hsig with hsig | ⟨x, hx, hxsig⟩
    · rw [← hsig]
      exact (fits_of_mem (List.mem_append_right _ List.mem_cons_self)).significant
    · rw [← hxsig]
      exact (fits_of_mem (hother x hx e)).significant

/-- **Two lists of words look the same**: they have the same layout, and the same bits in it. -/
structure SameBits (ds es : List (BitVec 64)) : Prop where
  leading : minLeading es = minLeading ds
  significant : maxSignificant es = maxSignificant ds
  /-- What the layout keeps of them is the same. -/
  bits : es.map (fun e => e.toNat / 2 ^ cut ds) = ds.map fun d => d.toNat / 2 ^ cut ds

/-- **The layout keeps the words**: it cuts nothing; every word has the same number of leading
zeros; or one word has more of them and is alone with its number of significant bits, of which
only the last is cut, or which are two that lie as low as they can. -/
def KeptByLayout (ds : List (BitVec 64)) : Prop :=
  cut ds = 0 ∨ (∀ d ∈ ds, leadingZeros d.toNat = minLeading ds) ∨
    ∃ pre d post, ds = pre ++ d :: post ∧
      (∀ e ∈ pre ++ post, leadingZeros e.toNat = minLeading ds ∧
        significantBits e.toNat < maxSignificant ds) ∧
      significantBits d.toNat = maxSignificant ds ∧
      (leadingZeros d.toNat = minLeading ds + 1 ∨ (minLeading ds = 60 ∧ d = 3))

/-- Words with as many leading zeros as the layout are kept. -/
theorem SameBits.eq_of_leading (h : SameBits ds es) (hcut : cut ds ≠ 0) (hd : d ∈ ds) (he : e ∈ es)
    (hlead : leadingZeros d.toNat = minLeading ds)
    (hbits : e.toNat / 2 ^ cut ds = d.toNat / 2 ^ cut ds) : e = d := by
  have hsum := layout_sum ds
  have hfits := fits_of_mem he
  rw [h.leading, h.significant] at hfits
  refine BitVec.eq_of_toNat_eq ((fits_of_mem hd).eq_of_leading hfits hsum ?_ hlead hbits)
  intro hzero
  rw [hzero, show leadingZeros 0 = 64 from rfl] at hlead
  omega

/-- The least number of leading zeros is that of another word, if it is not of this one. -/
theorem exists_other_minLeading (hcut : cut (pre ++ d :: post) ≠ 0)
    (hlead : minLeading (pre ++ d :: post) < leadingZeros d.toNat) :
    ∃ x ∈ pre ++ post, leadingZeros x.toNat = minLeading (pre ++ d :: post) ∧ x.toNat ≠ 0 := by
  have hsum := layout_sum (pre ++ d :: post)
  have hlt : minLeading (pre ++ d :: post) < 64 := by omega
  obtain ⟨x, hx, hxlead⟩ := exists_minLeading hlt
  rcases List.mem_cons.mp (List.perm_middle.mem_iff.mp hx) with rfl | hother
  · exact absurd hxlead hlead.ne'
  · refine ⟨x, hother, hxlead, fun hzero => ?_⟩
    rw [hzero, show leadingZeros 0 = 64 from rfl] at hxlead
    omega

/-- A word is the only one with all significant bits, if the others have fewer. -/
theorem significant_of_others_lt {w : Nat} (hw : maxSignificant (pre ++ d :: post) = w)
    (hpos : 0 < w) (hothers : ∀ x ∈ pre ++ post, significantBits x.toNat < w) :
    significantBits d.toNat = w := by
  rw [← hw] at hpos
  obtain ⟨y, hy, hysig⟩ := exists_maxSignificant hpos
  rcases List.mem_cons.mp (List.perm_middle.mem_iff.mp hy) with rfl | hy
  · rw [hysig, hw]
  · exact absurd (hysig.trans hw) (hothers y hy).ne

/-- If all words but one have the leading zeros of the layout, only that one can change. -/
theorem SameBits.eq_outside (h : SameBits (pre ++ d :: post) es) (hcut : cut (pre ++ d :: post) ≠ 0)
    (hothers : ∀ x ∈ pre ++ post, leadingZeros x.toNat = minLeading (pre ++ d :: post)) :
    ∃ e, es = pre ++ e :: post ∧
      e.toNat / 2 ^ cut (pre ++ d :: post) = d.toNat / 2 ^ cut (pre ++ d :: post) := by
  have hbits := h.bits
  rw [List.map_append, List.map_cons] at hbits
  obtain ⟨pre', rest, rfl, hpre, hrest⟩ := List.map_eq_append_iff.mp hbits
  obtain ⟨e, post', rfl, he, hpost⟩ := List.map_eq_cons_iff.mp hrest
  have hold : ∀ x ∈ pre ++ post, x ∈ pre ++ d :: post := fun x hx =>
    List.perm_middle.mem_iff.mpr (List.mem_cons_of_mem d hx)
  have hpre' : pre' = pre := eq_of_map_eq hpre fun x hx y hy =>
    h.eq_of_leading hcut (hold x (List.mem_append_left _ hx)) (List.mem_append_left _ hy)
      (hothers x (List.mem_append_left _ hx))
  have hpost' : post' = post := eq_of_map_eq hpost fun x hx y hy =>
    h.eq_of_leading hcut (hold x (List.mem_append_right _ hx))
      (List.mem_append_right _ (List.mem_cons_of_mem _ hy))
      (hothers x (List.mem_append_right _ hx))
  exact ⟨e, by rw [hpre', hpost'], he⟩

/-- **Nothing is lost**: words that the layout keeps are the only ones that look like them. -/
theorem KeptByLayout.eq (hkept : KeptByLayout ds) (h : SameBits ds es) : es = ds := by
  by_cases hcut : cut ds = 0
  · have hbits := h.bits
    rw [hcut] at hbits
    refine eq_of_map_eq hbits fun d _ e _ heq => BitVec.eq_of_toNat_eq ?_
    rwa [pow_zero, Nat.div_one, Nat.div_one] at heq
  · rcases hkept with hzero | hall | ⟨pre, d, post, rfl, hothers, hsig, hlead⟩
    · exact absurd hzero hcut
    · exact eq_of_map_eq h.bits fun d hd e he => h.eq_of_leading hcut hd he (hall d hd)
    · obtain ⟨e, rfl, he⟩ := h.eq_outside hcut fun x hx => (hothers x hx).1
      have hmore : minLeading (pre ++ d :: post) < leadingZeros d.toNat := by
        rcases hlead with hnext | ⟨hsixty, rfl⟩
        · omega
        · rw [hsixty]
          decide
      obtain ⟨x, hx, -, hne⟩ := exists_other_minLeading hcut hmore
      have hxsig := (significantBits_spec hne x.isLt).2.1
      have hxlt := (hothers x hx).2
      have hesig : significantBits e.toNat = maxSignificant (pre ++ d :: post) :=
        significant_of_others_lt h.significant (by omega) fun y hy => (hothers y hy).2
      have hefits := fits_of_mem (List.mem_append_right pre (List.mem_cons_self (a := e)
        (l := post)))
      rw [h.leading, h.significant] at hefits
      have hlead' : leadingZeros d.toNat = minLeading (pre ++ d :: post) + 1 ∨
          (minLeading (pre ++ d :: post) = 60 ∧ d.toNat = 3) :=
        hlead.imp_right fun hthree => ⟨hthree.1, by rw [hthree.2]; rfl⟩
      have heq : e.toNat = d.toNat := (fits_of_mem (List.mem_append_right pre
        List.mem_cons_self)).eq_of_significant hefits (layout_sum _) (by omega) hsig hesig hlead' he
      rw [BitVec.eq_of_toNat_eq heq]

/-- A word can be changed in the bits that are cut, if others hold the layout. -/
theorem exists_sameBits_of_word {y : Nat} (hne : y ≠ d.toNat)
    (hbits : y / 2 ^ cut (pre ++ d :: post) = d.toNat / 2 ^ cut (pre ++ d :: post))
    (hfits : Fits (minLeading (pre ++ d :: post)) (maxSignificant (pre ++ d :: post)) y)
    (hlead : ∃ x ∈ pre ++ post, leadingZeros x.toNat = minLeading (pre ++ d :: post))
    (hsig : significantBits y = maxSignificant (pre ++ d :: post) ∨
      ∃ x ∈ pre ++ post, significantBits x.toNat = maxSignificant (pre ++ d :: post)) :
    ∃ es, es ≠ pre ++ d :: post ∧ SameBits (pre ++ d :: post) es := by
  have htoNat : (BitVec.ofNat 64 y).toNat = y := by
    rw [BitVec.toNat_ofNat, Nat.mod_eq_of_lt hfits.lt]
  obtain ⟨e, rfl⟩ : ∃ e : BitVec 64, y = e.toNat := ⟨_, htoNat.symm⟩
  obtain ⟨hleading, hsignificant⟩ := layout_replace hfits hlead hsig
  refine ⟨pre ++ e :: post, ?_, hleading, hsignificant, ?_⟩
  · intro heq
    exact hne (congrArg BitVec.toNat (List.cons.inj (List.append_cancel_left heq)).1)
  · rw [List.map_append, List.map_append, List.map_cons, List.map_cons, hbits]

/-- A word with more leading zeros than the layout can be changed, if another one has all
significant bits. -/
theorem exists_sameBits_of_free (hcut : cut (pre ++ d :: post) ≠ 0)
    (hlead : minLeading (pre ++ d :: post) < leadingZeros d.toNat)
    (hsig : ∃ x ∈ pre ++ post, significantBits x.toNat = maxSignificant (pre ++ d :: post)) :
    ∃ es, es ≠ pre ++ d :: post ∧ SameBits (pre ++ d :: post) es := by
  have hsum := layout_sum (pre ++ d :: post)
  have hfits := fits_of_mem (List.mem_append_right pre (List.mem_cons_self (a := d) (l := post)))
  obtain ⟨x, hx, hxlead, -⟩ := exists_other_minLeading hcut hlead
  obtain ⟨y, hne, hbits, hy⟩ := hfits.exists_twin hsum hlead (maxSignificant_pos (by omega))
    (by omega)
  exact exists_sameBits_of_word hne hbits hy ⟨x, hx, hxlead⟩ (.inr hsig)

/-- A list splits at any other of its elements. -/
theorem exists_split_other (h : e ∈ pre ++ post) :
    ∃ before after, pre ++ d :: post = before ++ e :: after ∧ d ∈ before ++ after := by
  rcases List.mem_append.mp h with hpre | hpost
  · obtain ⟨before, between, rfl⟩ := List.append_of_mem hpre
    exact ⟨before, between ++ d :: post, by simp, by simp⟩
  · obtain ⟨between, after, rfl⟩ := List.append_of_mem hpost
    exact ⟨pre ++ d :: between, after, by simp, by simp⟩

/-- **Something is lost**: other words look the same. -/
theorem exists_sameBits (hlost : ¬ KeptByLayout ds) : ∃ es, es ≠ ds ∧ SameBits ds es := by
  have hsum := layout_sum ds
  have hcut : cut ds ≠ 0 := fun hzero => hlost (.inl hzero)
  obtain ⟨d, hd, hne⟩ : ∃ d ∈ ds, leadingZeros d.toNat ≠ minLeading ds := by
    by_contra hnone
    exact hlost (.inr (.inl fun d hd => by_contra fun hne => hnone ⟨d, hd, hne⟩))
  have hlead : minLeading ds < leadingZeros d.toNat :=
    lt_of_le_of_ne (fits_of_mem hd).leading (Ne.symm hne)
  have hfits := fits_of_mem hd
  obtain ⟨pre, post, rfl⟩ := List.append_of_mem hd
  by_cases hsig : ∃ x ∈ pre ++ post,
      significantBits x.toNat = maxSignificant (pre ++ d :: post)
  · exact exists_sameBits_of_free hcut hlead hsig
  obtain ⟨x, hx, hxlead, hxne⟩ := exists_other_minLeading hcut hlead
  have hless : ∀ e ∈ pre ++ post, significantBits e.toNat < maxSignificant (pre ++ d :: post) :=
    fun e he => lt_of_le_of_ne (fits_of_mem (List.perm_middle.mem_iff.mpr
      (List.mem_cons_of_mem d he))).significant fun heq => hsig ⟨e, he, heq⟩
  have hxsig := (significantBits_spec hxne x.isLt).2.1
  have hxless := hless x hx
  have hdsig : significantBits d.toNat = maxSignificant (pre ++ d :: post) :=
    significant_of_others_lt rfl (by omega) hless
  by_cases hothers : ∀ e ∈ pre ++ post, leadingZeros e.toNat = minLeading (pre ++ d :: post)
  · have hone : ¬ (leadingZeros d.toNat = minLeading (pre ++ d :: post) + 1 ∨
        (minLeading (pre ++ d :: post) = 60 ∧ d = 3)) := fun hone =>
      hlost (.inr (.inr ⟨pre, d, post, rfl, fun e he => ⟨hothers e he, hless e he⟩, hdsig, hone⟩))
    have hthree : ¬ (minLeading (pre ++ d :: post) = 60 ∧ d.toNat = 3) := fun hthree =>
      hone (.inr ⟨hthree.1, BitVec.eq_of_toNat_eq hthree.2⟩)
    have hnext : leadingZeros d.toNat ≠ minLeading (pre ++ d :: post) + 1 := fun hnext =>
      hone (.inl hnext)
    obtain ⟨y, hne, hbits, hy, hysig⟩ := hfits.exists_twin_of_significant hsum (by omega) hdsig
      (by omega) hthree
    exact exists_sameBits_of_word hne hbits hy ⟨x, hx, hxlead⟩ (.inl hysig)
  · -- then there are two such words, and the other one can be changed
    obtain ⟨e, he, hne⟩ : ∃ e ∈ pre ++ post,
        leadingZeros e.toNat ≠ minLeading (pre ++ d :: post) := by
      by_contra hnone
      exact hothers fun e he => by_contra fun hne => hnone ⟨e, he, hne⟩
    have helead : minLeading (pre ++ d :: post) < leadingZeros e.toNat :=
      lt_of_le_of_ne (fits_of_mem (List.perm_middle.mem_iff.mpr
        (List.mem_cons_of_mem d he))).leading (Ne.symm hne)
    obtain ⟨before, after, hsplit, hd⟩ := exists_split_other (d := d) he
    rw [hsplit] at hcut helead hdsig ⊢
    exact exists_sameBits_of_free hcut helead ⟨d, hd, hdsig⟩

end Layout

end StopTrading.TickDb
