import Mathlib.Algebra.Order.Field.Power
import Mathlib.Data.Int.Log
import Mathlib.Data.Rat.Floor
import Mathlib.Tactic.GCongr
import Mathlib.Tactic.Linarith
import Mathlib.Tactic.NormNum
import Mathlib.Tactic.Positivity
import Mathlib.Tactic.Ring

/-!
# The nearest single-precision number

Single-precision numbers lie on grids.  Between two powers of two the grid points
are multiples of one power of two, with 24 binary digits, and near zero the grid
gets no finer than `2 ^ (-149)`.  A rational number is rounded to the next grid
point, and half way between two of them to the even one.

This module is about rational numbers only.  Its main statement is that rounding
keeps the order (`nearest_mono`).  There is no largest number here: the range is
cut off where a number is packed into bits.
-/

namespace Arbor.Binary32

/-! ## Whole numbers -/

/-- The next whole number, half way between two of them the even one. -/
def halfEven (q : ℚ) : ℤ :=
  if 2 * Int.fract q < 1 then ⌊q⌋
  else if 2 * Int.fract q = 1 then ⌊q⌋ + ⌊q⌋ % 2
  else ⌊q⌋ + 1

theorem halfEven_of_lt {q : ℚ} (h : 2 * Int.fract q < 1) : halfEven q = ⌊q⌋ := if_pos h

theorem halfEven_of_eq {q : ℚ} (h : 2 * Int.fract q = 1) : halfEven q = ⌊q⌋ + ⌊q⌋ % 2 := by
  rw [halfEven, if_neg h.not_lt, if_pos h]

theorem halfEven_of_gt {q : ℚ} (h : 1 < 2 * Int.fract q) : halfEven q = ⌊q⌋ + 1 := by
  rw [halfEven, if_neg h.not_gt, if_neg h.ne']

theorem halfEven_intCast (n : ℤ) : halfEven n = n := by
  simp [halfEven]

theorem floor_le_halfEven (q : ℚ) : ⌊q⌋ ≤ halfEven q := by
  simp only [halfEven]
  split_ifs <;> omega

theorem halfEven_le_floor_add_one (q : ℚ) : halfEven q ≤ ⌊q⌋ + 1 := by
  simp only [halfEven]
  split_ifs <;> omega

theorem halfEven_mono {q r : ℚ} (h : q ≤ r) : halfEven q ≤ halfEven r := by
  rcases (Int.floor_mono h).lt_or_eq with hlt | heq
  · calc halfEven q ≤ ⌊q⌋ + 1 := halfEven_le_floor_add_one q
      _ ≤ ⌊r⌋ := hlt
      _ ≤ halfEven r := floor_le_halfEven r
  · -- On one floor the fractions decide.
    have hfract : Int.fract q ≤ Int.fract r := by
      rw [Int.fract, Int.fract, heq]
      exact sub_le_sub_right h _
    rcases lt_trichotomy (2 * Int.fract q) 1 with hq | hq | hq
    · rw [halfEven_of_lt hq, heq]
      exact floor_le_halfEven r
    · have hr : 1 ≤ 2 * Int.fract r := by linarith
      rcases hr.eq_or_lt with hr | hr
      · rw [halfEven_of_eq hq, halfEven_of_eq hr.symm, heq]
      · rw [halfEven_of_gt hr, ← heq]
        exact halfEven_le_floor_add_one q
    · have hr : 1 < 2 * Int.fract r := by linarith
      rw [halfEven_of_gt hq, halfEven_of_gt hr, heq]

theorem le_halfEven {n : ℤ} {q : ℚ} (h : (n : ℚ) ≤ q) : n ≤ halfEven q := by
  rw [← halfEven_intCast n]
  exact halfEven_mono h

theorem halfEven_le {n : ℤ} {q : ℚ} (h : q ≤ n) : halfEven q ≤ n := by
  rw [← halfEven_intCast n]
  exact halfEven_mono h

/-! ## Grids -/

/-- The power of two that the grid around a positive number counts. -/
def grid (q : ℚ) : ℤ := max (Int.log 2 q - 23) (-149)

theorem le_grid (q : ℚ) : -149 ≤ grid q := le_max_right ..

theorem grid_mono {q r : ℚ} (hq : 0 < q) (h : q ≤ r) : grid q ≤ grid r :=
  max_le_max_right _ (sub_le_sub_right (Int.log_mono_right hq h) _)

theorem lt_zpow_grid (q : ℚ) : q < 2 ^ (grid q + 24) := by
  have hlog : q < ((2 : ℕ) : ℚ) ^ (Int.log 2 q + 1) := Int.lt_zpow_succ_log_self (by decide) q
  refine hlog.trans_le ?_
  rw [Nat.cast_ofNat]
  refine zpow_le_zpow_right₀ (by norm_num) ?_
  have hle : Int.log 2 q - 23 ≤ grid q := le_max_left ..
  omega

/-- Above the finest grid all 24 digits are used. -/
theorem zpow_grid_le {q : ℚ} (hq : 0 < q) (h : -149 < grid q) : 2 ^ (grid q + 23) ≤ q := by
  have hlog : ((2 : ℕ) : ℚ) ^ Int.log 2 q ≤ q := Int.zpow_log_le_self (by decide) hq
  rw [Nat.cast_ofNat] at hlog
  have hgrid : grid q + 23 = Int.log 2 q := by
    rw [grid] at h ⊢
    omega
  rw [hgrid]
  exact hlog

/-- The grid around a number is known from the powers of two next to it. -/
theorem grid_eq {q : ℚ} (hq : 0 < q) {e : ℤ} (he : -149 ≤ e) (hlt : q < 2 ^ (e + 24))
    (hle : e = -149 ∨ 2 ^ (e + 23) ≤ q) : grid q = e := by
  have hupper : Int.log 2 q < e + 24 := by
    rw [← Int.lt_zpow_iff_log_lt (by decide) hq, Nat.cast_ofNat]
    exact hlt
  rw [grid]
  rcases hle with rfl | hle
  · omega
  · have hlower : e + 23 ≤ Int.log 2 q := by
      rw [← Int.zpow_le_iff_le_log (by decide) hq, Nat.cast_ofNat]
      exact hle
    omega

/-! ## Rounding -/

/-- The digits of a rounded number, as a whole number. -/
def digits (q : ℚ) : ℤ := halfEven (q / 2 ^ grid q)

/-- The single-precision number next to a number that is not negative. -/
def nearestNonneg (q : ℚ) : ℚ := digits q * 2 ^ grid q

theorem digits_nonneg {q : ℚ} (hq : 0 ≤ q) : 0 ≤ digits q :=
  le_halfEven (by rw [Int.cast_zero]; positivity)

theorem digits_le (q : ℚ) : digits q ≤ 2 ^ 24 := by
  refine halfEven_le ?_
  rw [div_le_iff₀ (by positivity)]
  rw [Int.cast_pow, Int.cast_ofNat, ← zpow_natCast, ← zpow_add₀ (by norm_num), add_comm]
  exact (lt_zpow_grid q).le

theorem le_digits {q : ℚ} (hq : 0 < q) (h : -149 < grid q) : 2 ^ 23 ≤ digits q := by
  refine le_halfEven ?_
  rw [le_div_iff₀ (by positivity)]
  rw [Int.cast_pow, Int.cast_ofNat, ← zpow_natCast, ← zpow_add₀ (by norm_num), add_comm]
  exact zpow_grid_le hq h

theorem nearestNonneg_zero : nearestNonneg 0 = 0 := by
  simp [nearestNonneg, digits, halfEven]

theorem nearestNonneg_nonneg {q : ℚ} (hq : 0 ≤ q) : 0 ≤ nearestNonneg q := by
  have hdigits : (0 : ℚ) ≤ digits q := by exact_mod_cast digits_nonneg hq
  rw [nearestNonneg]
  positivity

theorem nearestNonneg_mono {q r : ℚ} (hq : 0 ≤ q) (h : q ≤ r) :
    nearestNonneg q ≤ nearestNonneg r := by
  rcases hq.eq_or_lt with rfl | hpos
  · rw [nearestNonneg_zero]
    exact nearestNonneg_nonneg h
  rcases (grid_mono hpos h).lt_or_eq with hlt | heq
  · -- The coarser grid begins where the finer one ends.
    have hq' : (digits q : ℚ) ≤ 2 ^ (24 : ℤ) := by exact_mod_cast digits_le q
    have hr' : (2 : ℚ) ^ (23 : ℤ) ≤ digits r := by
      exact_mod_cast le_digits (hpos.trans_le h) ((le_grid q).trans_lt hlt)
    calc nearestNonneg q ≤ 2 ^ (24 : ℤ) * 2 ^ grid q := by rw [nearestNonneg]; gcongr
      _ = 2 ^ (24 + grid q) := (zpow_add₀ (by norm_num) _ _).symm
      _ ≤ 2 ^ (23 + grid r) := zpow_le_zpow_right₀ (by norm_num) (by omega)
      _ = 2 ^ (23 : ℤ) * 2 ^ grid r := zpow_add₀ (by norm_num) _ _
      _ ≤ nearestNonneg r := by rw [nearestNonneg]; gcongr
  · have hdigits : (digits q : ℚ) ≤ digits r := by
      rw [digits, digits, heq]
      exact_mod_cast halfEven_mono (by gcongr)
    rw [nearestNonneg, nearestNonneg, heq]
    gcongr

/-- The single-precision number next to a rational number. -/
def nearest (q : ℚ) : ℚ := if q < 0 then -nearestNonneg (-q) else nearestNonneg q

theorem nearest_of_nonneg {q : ℚ} (hq : 0 ≤ q) : nearest q = nearestNonneg q :=
  if_neg (not_lt.mpr hq)

theorem nearest_neg (q : ℚ) : nearest (-q) = -nearest q := by
  simp only [nearest]
  rcases lt_trichotomy q 0 with hq | rfl | hq
  · rw [if_pos hq, if_neg (by linarith), neg_neg]
  · simp [nearestNonneg_zero]
  · rw [if_pos (by linarith), if_neg (by linarith), neg_neg]

/-- Rounding keeps the order. -/
theorem nearest_mono {q r : ℚ} (h : q ≤ r) : nearest q ≤ nearest r := by
  simp only [nearest]
  split_ifs with hq hr hr
  · exact neg_le_neg (nearestNonneg_mono (by linarith) (neg_le_neg h))
  · have hbelow := nearestNonneg_nonneg (q := -q) (by linarith)
    have habove := nearestNonneg_nonneg (not_lt.mp hr)
    linarith
  · exact absurd (h.trans_lt hr) hq
  · exact nearestNonneg_mono (not_lt.mp hq) h

end Arbor.Binary32
