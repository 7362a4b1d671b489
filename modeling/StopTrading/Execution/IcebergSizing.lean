import StopTrading.Execution.Iceberg
import Mathlib

/-!
# The size of a child order

`calculate_next_display_qty` draws an offset from a range that is as wide as the distance of the
two display bounds, and panics if that range is empty.  The bounds are the display size less and
more a percentage, without their fractions, and the lower one is at least one.  They lie on both
sides of the display size (`Bounded`), and coincide for a percentage of zero and for a display
size of one (`min_lt_max_iff`).  Where they do not, every draw gives a size within what remains
and the upper bound (`sizesSoundly_iff`).

Arithmetic is exact.

### What is load-bearing

A random size is the display size and an offset, from a range that is as wide as the bounds are
apart and has zero in its middle, and a draw from an empty range panics.  So a child has a size
for every draw exactly if `min < max`, and everything else is the arithmetic of two floors:
`⌊d(1 - p)⌋`, at least one, and `⌊d(1 + p)⌋`.

The exceptional display size is one.  Its lower bound is one whatever the percentage, and its
upper bound is one unless the percentage is at least a whole; with the default of a fifth an
iceberg that displays one unit panics at its first refresh.
-/

namespace StopTrading.Execution.Iceberg

open MachineInt

/-- **Every child has a size**, whatever is drawn: at least one, at most what remains and at most
the maximal display size. -/
def SizesSoundly (config : IcebergConfig Rat) (order : IcebergOrder) : Prop :=
  ∀ (remaining : Int) (draw : Draw Rat), 0 < remaining →
    ∃ qty, calculateNextDisplayQty .exact config order remaining draw = some qty ∧
      1 ≤ qty ∧ qty ≤ remaining ∧ qty ≤ order.maxDisplayQty

/-- **The bounds of an order**: they are words and the display size lies between them. -/
structure Bounded (order : IcebergOrder) : Prop where
  /-- at least one -/
  pos : 1 ≤ order.minDisplayQty
  /-- and at most the display size -/
  lower : order.minDisplayQty ≤ order.displayQuantity
  /-- which is at most the upper bound -/
  upper : order.displayQuantity ≤ order.maxDisplayQty
  /-- a word -/
  word : order.maxDisplayQty < 2 ^ 63

variable {config : IcebergConfig Rat} {order : IcebergOrder}

/-- The range of the offset is empty just when the bounds coincide. -/
theorem Bounded.range_nonempty_iff (h : Bounded order) :
    FloatOps.exact.lt
        (FloatOps.exact.div
          (FloatOps.exact.neg
            (FloatOps.exact.ofI64 (i64 (order.maxDisplayQty - order.minDisplayQty))))
          (FloatOps.exact.lit 2))
        (FloatOps.exact.div
          (FloatOps.exact.ofI64 (i64 (order.maxDisplayQty - order.minDisplayQty)))
          (FloatOps.exact.lit 2)) = true ↔
      order.minDisplayQty < order.maxDisplayQty := by
  have hpos := h.pos
  have hword := h.word
  have hle := h.lower.trans h.upper
  rw [i64_of_range (by omega) (by omega)]
  simp only [FloatOps.exact, decide_eq_true_eq]
  rw [← sub_pos (a := order.maxDisplayQty), ← Int.cast_pos (R := Rat)]
  constructor
  · intro hlt
    linarith
  · intro hlt
    linarith

/-- What is drawn, when the bounds do not coincide. -/
theorem Bounded.displaySize_eq_none_iff (h : Bounded order) (draw : Draw Rat) :
    displaySize .exact config order draw = none ↔
      config.enableSizeRandomization = true ∧ ¬ order.minDisplayQty < order.maxDisplayQty := by
  unfold displaySize
  dsimp only
  split_ifs with hoff hdraw
  · rw [hoff]
    simp
  · exact iff_of_false (by simp) fun hnone => hnone.2 (h.range_nonempty_iff.mp hdraw.1)
  · refine iff_of_true rfl ⟨Bool.not_eq_false _ ▸ hoff, fun hlt => hdraw ?_⟩
    exact ⟨h.range_nonempty_iff.mpr hlt, hlt.le⟩

/-- A size that is drawn respects the upper bound. -/
theorem Bounded.displaySize_le (h : Bounded order) {draw : Draw Rat} {size : Int}
    (hsize : displaySize .exact config order draw = some size) : size ≤ order.maxDisplayQty := by
  unfold displaySize at hsize
  dsimp only at hsize
  split_ifs at hsize
  · obtain rfl := Option.some.inj hsize
    exact h.upper
  · obtain rfl := Option.some.inj hsize
    exact max_le (h.lower.trans h.upper) (min_le_right _ _)

/-- **When every child has a size**: when none is drawn, or from a range that is not empty. -/
theorem Bounded.sized_iff (created : Created order) (h : Bounded order) :
    SizesSoundly config order ↔
      config.enableSizeRandomization = false ∨ order.minDisplayQty < order.maxDisplayQty := by
  constructor
  · intro hsound
    obtain ⟨qty, hqty, -⟩ := hsound 1 ⟨0, 0, 0⟩ one_pos
    obtain ⟨size, hsize, -⟩ := Option.map_eq_some_iff.mp hqty
    by_contra hempty
    rw [not_or, Bool.not_eq_false] at hempty
    rw [(h.displaySize_eq_none_iff _).mpr hempty] at hsize
    cases hsize
  · intro hrange remaining draw hpos
    obtain ⟨size, hsize⟩ : ∃ size, displaySize .exact config order draw = some size := by
      refine Option.ne_none_iff_exists'.mp fun hnone => ?_
      obtain ⟨hon, hempty⟩ := (h.displaySize_eq_none_iff draw).mp hnone
      rcases hrange with hoff | hlt
      · rw [hon] at hoff
        cases hoff
      · exact hempty hlt
    have hone := created.displaySize_pos hsize
    have hle := h.displaySize_le hsize
    unfold calculateNextDisplayQty
    rw [hsize, Option.map_some]
    refine ⟨_, rfl, ?_⟩
    split_ifs <;> omega

/-! ## The bounds that are created -/

/-- A cast of a number that is not negative. -/
theorem exact_toI64 {x : Rat} (h : 0 ≤ x) : FloatOps.exact.toI64 x = min ⌊x⌋ (2 ^ 63 - 1) := by
  have hfloor : 0 ≤ ⌊x⌋ := Int.floor_nonneg.mpr h
  simp only [FloatOps.exact, FloatOps.truncate_of_nonneg h]
  omega

/-- The display bounds of `create_iceberg` in exact arithmetic. -/
theorem createIceberg_bounds {orderId symbol : String} {side : Side}
    {totalQuantity limitPrice displayQty : Int}
    (hpct : 0 ≤ config.randomizationPct ∧ config.randomizationPct ≤ 1)
    (h : createIceberg .exact config orderId symbol side totalQuantity limitPrice displayQty =
      .ok order) :
    order.displayQuantity = displayQty ∧
      order.minDisplayQty =
        max (min ⌊(displayQty : Rat) * (1 - config.randomizationPct)⌋ (2 ^ 63 - 1)) 1 ∧
      order.maxDisplayQty =
        min ⌊(displayQty : Rat) * (1 + config.randomizationPct)⌋ (2 ^ 63 - 1) := by
  unfold createIceberg at h
  split_ifs at h with hinvalid
  rw [not_or, Int.not_le] at hinvalid
  have hdisplay : (0 : Rat) ≤ displayQty := Int.cast_nonneg hinvalid.1.le
  obtain rfl := Except.ok.inj h
  refine ⟨rfl, ?_, ?_⟩
  · exact congrArg (max · 1) (exact_toI64 (mul_nonneg hdisplay (sub_nonneg.mpr hpct.2)))
  · exact exact_toI64 (mul_nonneg hdisplay (add_nonneg zero_le_one hpct.1))

section

variable {d : Int} {pct : Rat}

/-- The lower bound is not above the display size, -/
theorem floor_shrunk_le (hd : 0 < d) (hpct : 0 ≤ pct) : ⌊(d : Rat) * (1 - pct)⌋ ≤ d := by
  have hle : (d : Rat) * (1 - pct) ≤ d :=
    mul_le_of_le_one_right (Int.cast_nonneg hd.le) (sub_le_self 1 hpct)
  exact (Int.floor_le_floor hle).trans (Int.floor_intCast d).le

/-- and the upper one not below it. -/
theorem le_floor_grown (hd : 0 < d) (hpct : 0 ≤ pct) : d ≤ ⌊(d : Rat) * (1 + pct)⌋ :=
  Int.le_floor.mpr (le_mul_of_one_le_right (Int.cast_nonneg hd.le) (le_add_of_nonneg_right hpct))

/-- A percentage that is not zero takes something away. -/
theorem floor_shrunk_lt (hd : 0 < d) (hpct : 0 < pct) : ⌊(d : Rat) * (1 - pct)⌋ < d := by
  have hpos : (0 : Rat) < d := Int.cast_pos.mpr hd
  exact Int.floor_lt.mpr (mul_lt_of_lt_one_right hpos (sub_lt_self 1 hpct))

/-- The bounds for a display size of one are apart only if the upper one doubles it. -/
theorem floor_grown_one (hpct : 0 ≤ pct) (hone : pct ≤ 1) :
    1 < ⌊((1 : Int) : Rat) * (1 + pct)⌋ ↔ pct = 1 := by
  rw [Int.cast_one, one_mul, ← Int.add_one_le_iff, Int.le_floor]
  constructor
  · intro h
    push_cast at h
    linarith
  · rintro rfl
    norm_num

/-- **When the bounds coincide**: for a percentage of zero, and for a display size of one that is
not doubled. -/
theorem min_lt_max_iff (hd : 0 < d) (hword : d < 2 ^ 63) (hpct : 0 ≤ pct) (hone : pct ≤ 1) :
    max (min ⌊(d : Rat) * (1 - pct)⌋ (2 ^ 63 - 1)) 1 < min ⌊(d : Rat) * (1 + pct)⌋ (2 ^ 63 - 1) ↔
      0 < pct ∧ (2 ≤ d ∨ pct = 1) := by
  have hlower := floor_shrunk_le hd hpct
  have hupper := le_floor_grown hd hpct
  rcases hpct.eq_or_lt with rfl | hpos
  · -- both bounds are the display size
    rw [sub_zero, add_zero, mul_one, Int.floor_intCast]
    exact iff_of_false (by omega) fun h => h.1.false
  · have hshrunk := floor_shrunk_lt hd hpos
    rcases (Int.add_one_le_iff.mpr hd).eq_or_lt with rfl | htwo
    · have hgrown := floor_grown_one hpct hone
      rw [zero_add] at *
      constructor
      · intro hlt
        exact ⟨hpos, Or.inr (hgrown.mp (by omega))⟩
      · rintro ⟨-, htwo | hdouble⟩
        · omega
        · have := hgrown.mpr hdouble
          omega
    · exact iff_of_true (by omega) ⟨hpos, Or.inl htwo⟩

end

/-- **When the children of an order have a size**: when none is drawn, or the percentage is not
zero, and the display size is at least two or doubled. -/
theorem sizesSoundly_iff {orderId symbol : String} {side : Side}
    {totalQuantity limitPrice displayQty : Int}
    (hpct : 0 ≤ config.randomizationPct ∧ config.randomizationPct ≤ 1)
    (hword : totalQuantity < 2 ^ 63)
    (h : createIceberg .exact config orderId symbol side totalQuantity limitPrice displayQty =
      .ok order) :
    SizesSoundly config order ↔
      config.enableSizeRandomization = false ∨
        (0 < config.randomizationPct ∧ (2 ≤ displayQty ∨ config.randomizationPct = 1)) := by
  obtain ⟨created, htotal⟩ := createIceberg_created h
  obtain ⟨hdisplay, hmin, hmax⟩ := createIceberg_bounds hpct h
  have hd := created.display
  have hle := created.displayLe
  rw [htotal] at hle
  rw [hdisplay] at hd hle
  have hlower := floor_shrunk_le hd hpct.1
  have hupper := le_floor_grown hd hpct.1
  have bounded : Bounded order :=
    ⟨created.minDisplay, by omega, by omega, by omega⟩
  rw [bounded.sized_iff created, hmin, hmax,
    min_lt_max_iff hd (hle.trans_lt hword) hpct.1 hpct.2]

/-- An order of ten, of which so much is displayed, with the default configuration. -/
def displaying (displayQty : Int) : Except IcebergError IcebergOrder :=
  createIceberg .exact (.default .exact) "order" "BTCUSDT" .buy 10 100 displayQty

/-- With a display size of five the bounds are apart. -/
theorem sizesSoundly_iff_five :
    ∃ order, displaying 5 = .ok order ∧
      (SizesSoundly (.default .exact) order ↔
        (IcebergConfig.default .exact).enableSizeRandomization = false ∨
          (0 < (IcebergConfig.default .exact).randomizationPct ∧
            ((2 : Int) ≤ 5 ∨ (IcebergConfig.default .exact).randomizationPct = 1))) :=
  ⟨_, rfl, sizesSoundly_iff ⟨by decide +kernel, by decide +kernel⟩
    (by decide : (10 : Int) < 2 ^ 63) rfl⟩

/-- **A display size of one panics** with the default configuration. -/
theorem not_forall_sizesSoundly :
    ¬ ∀ (config : IcebergConfig Rat) (orderId symbol : String) (side : Side)
      (totalQuantity limitPrice displayQty : Int) (order : IcebergOrder),
      0 ≤ config.randomizationPct ∧ config.randomizationPct ≤ 1 → totalQuantity < 2 ^ 63 →
      createIceberg .exact config orderId symbol side totalQuantity limitPrice displayQty =
        .ok order → SizesSoundly config order := by
  intro h
  have hpct : (0 : Rat) ≤ (IcebergConfig.default .exact).randomizationPct ∧
      (IcebergConfig.default .exact).randomizationPct ≤ 1 :=
    ⟨by decide +kernel, by decide +kernel⟩
  obtain ⟨qty, hqty, -⟩ := h (.default .exact) "order" "BTCUSDT" .buy 10 100 1 _ hpct (by decide)
    rfl 1 ⟨0, 0, 0⟩ one_pos
  have hsome := Option.isSome_iff_exists.mpr ⟨qty, hqty⟩
  revert hsome
  decide +kernel

end StopTrading.Execution.Iceberg
