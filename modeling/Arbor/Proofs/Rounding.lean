import Arbor.Proofs.Binary32

/-!
# Rounding of unpacked numbers

An operation makes an exact mantissa, shifts it to the right until it is on the
grid, and keeps two bits of what it shifted out: half a grid step, and whether
there was anything below.  Those two bits are enough to round to the nearest grid
point (`StandsFor`).  Rounding may carry into a new digit, and then the mantissa
is shifted once more (`settle`).

The main statements say what sums, products and whole numbers are: the nearest
single-precision number to the exact result (`isNearest_add`, `isNearest_mul`,
`isNearest_ofNat`).
-/

namespace Arbor.Binary32

open Float.Model Float.Model.UnpackedFloat

/-! ## Residual bits -/

/-- The number lies as far above the mantissa as the residual bits say. -/
def StandsFor (em : ExtendedMantissa) (q : ℚ) : Prop :=
  ∃ rest : ℚ, 0 ≤ rest ∧ rest < 1 / 2 ∧ (em.stickyBit = true ↔ rest ≠ 0) ∧
    q = em.mantissa + (if em.roundBit then 1 / 2 else 0) + rest

theorem standsFor_exact (m : Nat) : StandsFor (.ofMantissaAndAccuracy m .exact) m :=
  ⟨0, by simp [ExtendedMantissa.ofMantissaAndAccuracy]⟩

theorem StandsFor.halve {em : ExtendedMantissa} {q : ℚ} (h : StandsFor em q) :
    StandsFor em.shiftRightOne (q / 2) := by
  obtain ⟨rest, hnonneg, hlt, hsticky, rfl⟩ := h
  obtain ⟨m, r, s⟩ := em
  have hm : (m : ℚ) = 2 * (m / 2 : ℕ) + (m % 2 : ℕ) := by exact_mod_cast (Nat.div_add_mod m 2).symm
  refine ⟨((if r then 1 / 2 else 0) + rest) / 2, ?_, ?_, ?_, ?_⟩
  · split_ifs <;> linarith
  · split_ifs <;> linarith
  · cases r with
    | false => simpa [ExtendedMantissa.shiftRightOne] using hsticky
    | true =>
      have hpos : (1 / 2 + rest) / 2 ≠ 0 := by linarith
      simpa [ExtendedMantissa.shiftRightOne] using hpos
  · show ((m : ℚ) + (if r then 1 / 2 else 0) + rest) / 2 =
      (m / 2 : ℕ) + (if m % 2 != 0 then 1 / 2 else 0) + ((if r then 1 / 2 else 0) + rest) / 2
    rcases Nat.mod_two_eq_zero_or_one m with hmod | hmod
    · rw [hm, hmod]
      simp
      ring
    · rw [hm, hmod]
      simp
      ring

theorem StandsFor.shift {em : ExtendedMantissa} {q : ℚ} (h : StandsFor em q) (k : Nat) :
    StandsFor (em >>> k) (q / 2 ^ k) := by
  show StandsFor (k.repeat ExtendedMantissa.shiftRightOne em) _
  induction k with
  | zero =>
    rw [pow_zero, div_one]
    exact h
  | succ k ih =>
    rw [pow_succ, ← div_div]
    exact ih.halve

theorem StandsFor.floor_eq {em : ExtendedMantissa} {q : ℚ} (h : StandsFor em q) :
    ⌊q⌋ = em.mantissa := by
  obtain ⟨rest, hnonneg, hlt, -, rfl⟩ := h
  rw [Int.floor_eq_iff, Int.cast_natCast]
  constructor <;> split_ifs <;> linarith

/-- The residual bits round as the number itself does. -/
theorem StandsFor.roundedMantissa_eq {em : ExtendedMantissa} {q : ℚ} (h : StandsFor em q) :
    (em.roundedMantissa : ℤ) = halfEven q := by
  have hfloor := h.floor_eq
  have hfract : Int.fract q = q - em.mantissa := by rw [Int.fract, hfloor, Int.cast_natCast]
  obtain ⟨rest, hnonneg, hlt, hsticky, rfl⟩ := h
  obtain ⟨m, r, s⟩ := em
  cases r with
  | false =>
    have hlow : 2 * Int.fract ((m : ℚ) + (if false then 1 / 2 else 0) + rest) < 1 := by
      rw [hfract]
      simp
      linarith
    rw [halfEven_of_lt hlow, hfloor]
    cases s <;> rfl
  | true =>
    cases s with
    | false =>
      have hrest : rest = 0 := by simpa using hsticky
      have hhalf : 2 * Int.fract ((m : ℚ) + (if true then 1 / 2 else 0) + rest) = 1 := by
        rw [hfract, hrest]
        simp
      rw [halfEven_of_eq hhalf, hfloor]
      rfl
    | true =>
      have hrest : rest ≠ 0 := by simpa using hsticky
      have hpos : 0 < rest := lt_of_le_of_ne hnonneg hrest.symm
      have hhigh : 1 < 2 * Int.fract ((m : ℚ) + (if true then 1 / 2 else 0) + rest) := by
        rw [hfract]
        simp
        linarith
      rw [halfEven_of_gt hhigh, hfloor]
      rfl

/-! ## Target exponents -/

theorem log_eq {m : Nat} (hm : 0 < m) (e : Int) : Int.log 2 ((m : ℚ) * 2 ^ e) = m.log2 + e := by
  have hpos : (0 : ℚ) < m * 2 ^ e := value_finite_pos hm
  have hlower : (2 : ℚ) ^ (m.log2 : ℤ) ≤ m := by exact_mod_cast Nat.log2_self_le hm.ne'
  have hupper : (m : ℚ) < 2 ^ ((m.log2 : ℤ) + 1) := by exact_mod_cast Nat.lt_log2_self
  apply le_antisymm
  · rw [← Int.lt_add_one_iff, ← Int.lt_zpow_iff_log_lt (by decide) hpos, Nat.cast_ofNat,
      add_right_comm, zpow_add₀ (by norm_num)]
    gcongr
  · rw [← Int.zpow_le_iff_le_log (by decide) hpos, Nat.cast_ofNat, zpow_add₀ (by norm_num)]
    gcongr

/-- An operation aims at the grid around its exact result. -/
theorem targetExponent_eq {m : Nat} (hm : 0 < m) (e : Int) :
    Format.binary32.targetExponent (totalExponent m e) = grid (m * 2 ^ e) := by
  rw [grid, log_eq hm]
  show max (↑m.log2 + 1 + e - 24) (-149) = max (↑m.log2 + e - 23) (-149)
  congr 1
  omega

/-! ## Exact mantissas -/

/-- The unpacked number is the nearest one to a rational number. -/
structure IsNearest (x : UnpackedFloat) (q : ℚ) : Prop where
  /-- It is on the grid. -/
  onGrid : OnGrid x
  /-- It is a number. -/
  isNaN : x.isNaN = false
  /-- No other one is nearer. -/
  value : value x = nearest q

/-- The number with a rounded mantissa, which may have one digit too many. -/
def settle (s : Sign) (n : Nat) (e : Int) : UnpackedFloat :=
  let (em, e) := shiftToTargetExponent .binary32 n e .exact
  if h : em.mantissa = 0 then .zero s else .finite s em.mantissa e (Nat.pos_of_ne_zero h)

theorem settle_of_aligned (s : Sign) {n : Nat} {e : Int} (h : Aligned n e) :
    settle s n e = if h : n = 0 then .zero s else .finite s n e (Nat.pos_of_ne_zero h) := by
  have hfloor := h.floor
  have hlog : n.log2 ≤ 23 := by
    rcases Nat.eq_zero_or_pos n with rfl | hn
    · decide
    · exact Nat.le_of_lt_succ ((Nat.log2_lt hn.ne').mpr h.lt)
  have hshift : (Format.binary32.targetExponent (totalExponent n e) - e).toNat = 0 := by
    show (max (↑n.log2 + 1 + e - 24) (-149) - e).toNat = 0
    omega
  simp only [settle, shiftToTargetExponent, shiftToExponent, hshift, Int.natCast_zero, add_zero]
  rfl

theorem settle_of_carry (s : Sign) {e : Int} (he : -149 ≤ e) :
    settle s (2 ^ 24) e = .finite s (2 ^ 23) (e + 1) (by decide) := by
  have hshift : (Format.binary32.targetExponent (totalExponent (2 ^ 24) e) - e).toNat = 1 := by
    rw [totalExponent, Nat.log2_two_pow]
    show (max (24 + 1 + e - 24) (-149) - e).toNat = 1
    omega
  simp only [settle, shiftToTargetExponent, shiftToExponent, hshift]
  rfl

/-- A mantissa of at most 24 digits, and one that rounding has carried beyond. -/
theorem settle_spec (s : Sign) {n : Nat} {e : Int} (he : -149 ≤ e) (hn : n ≤ 2 ^ 24)
    (hfull : e = -149 ∨ 2 ^ 23 ≤ n) :
    OnGrid (settle s n e) ∧ (settle s n e).isNaN = false ∧
      value (settle s n e) = signed s (n * 2 ^ e) := by
  rcases hn.lt_or_eq with hlt | rfl
  · have h : Aligned n e := ⟨he, hlt, hfull⟩
    rw [settle_of_aligned s h]
    split_ifs with hzero
    · refine ⟨trivial, rfl, ?_⟩
      rw [hzero]
      cases s <;> simp [value, signed]
    · exact ⟨h, rfl, rfl⟩
  · rw [settle_of_carry s he]
    refine ⟨⟨by omega, by decide, .inr le_rfl⟩, rfl, ?_⟩
    show signed s _ = signed s _
    rw [zpow_add₀ (by norm_num)]
    norm_num
    ring_nf

theorem nearest_signed (s : Sign) {q : ℚ} (hq : 0 ≤ q) :
    nearest (signed s q) = signed s (nearestNonneg q) := by
  cases s with
  | negative => exact (nearest_neg q).trans (congrArg Neg.neg (nearest_of_nonneg hq))
  | positive => exact nearest_of_nonneg hq

theorem roundWithAccuracy_eq (s : Sign) {m k : Nat} {e : Int}
    (hk : (Format.binary32.targetExponent (totalExponent m e) - e).toNat = k) :
    roundWithAccuracy .binary32 s m e .exact =
      settle s (ExtendedMantissa.ofMantissaAndAccuracy m .exact >>> k).roundedMantissa (e + k) := by
  subst hk
  rfl

/-- An exact mantissa with enough digits is rounded to the nearest number. -/
theorem isNearest_roundWithAccuracy (s : Sign) {m : Nat} (hm : 0 < m) {e : Int}
    (he : e ≤ grid (m * 2 ^ e)) :
    IsNearest (roundWithAccuracy .binary32 s m e .exact) (signed s (m * 2 ^ e)) := by
  have hpos : (0 : ℚ) < m * 2 ^ e := value_finite_pos hm
  obtain ⟨k, hk⟩ := Int.eq_ofNat_of_zero_le (sub_nonneg.mpr he)
  have hgrid : grid (m * 2 ^ e) = e + k := by omega
  have hdigits : (m : ℚ) * 2 ^ e / 2 ^ grid (m * 2 ^ e) = m / 2 ^ k := by
    rw [hgrid, zpow_add₀ (by norm_num), zpow_natCast]
    field_simp
  have hround := ((standsFor_exact m).shift k).roundedMantissa_eq
  rw [← hdigits] at hround
  change _ = digits (m * 2 ^ e) at hround
  generalize hn : ExtendedMantissa.roundedMantissa _ = n at hround
  have hshift : (Format.binary32.targetExponent (totalExponent m e) - e).toNat = k := by
    rw [targetExponent_eq hm, hgrid]
    omega
  have hsettle : roundWithAccuracy .binary32 s m e .exact = settle s n (grid (m * 2 ^ e)) := by
    rw [roundWithAccuracy_eq s hshift, hn, hgrid]
  have hle : n ≤ 2 ^ 24 := by
    have hle := digits_le (m * 2 ^ e)
    omega
  have hfull : grid (m * 2 ^ e) = -149 ∨ 2 ^ 23 ≤ n := by
    rcases (le_grid (m * 2 ^ e)).eq_or_lt with heq | hlt
    · exact .inl heq.symm
    · have hfull := le_digits hpos hlt
      exact .inr (by omega)
  obtain ⟨honGrid, hisNaN, hvalue⟩ := settle_spec s (le_grid _) hle hfull
  rw [hsettle]
  refine ⟨honGrid, hisNaN, ?_⟩
  rw [hvalue, nearest_signed s hpos.le, nearestNonneg, ← hround, Int.cast_natCast]

/-- A mantissa with too few digits is filled up first. -/
theorem isNearest_round (s : Sign) {m : Nat} (hm : 0 < m) (e : Int) :
    IsNearest (UnpackedFloat.round .binary32 s m e) (signed s (m * 2 ^ e)) := by
  generalize hk : (e - grid (m * 2 ^ e)).toNat = k
  have hvalue : ((m * 2 ^ k : ℕ) : ℚ) * 2 ^ (e - k) = m * 2 ^ e := by
    rw [Nat.cast_mul, Nat.cast_pow, Nat.cast_ofNat, mul_assoc, ← zpow_natCast,
      ← zpow_add₀ (by norm_num), add_sub_cancel]
  have hround : UnpackedFloat.round .binary32 s m e =
      roundWithAccuracy .binary32 s (m * 2 ^ k) (e - k) .exact := by
    show roundWithAccuracy .binary32 s (m <<< Int.toNat _) (e - Int.toNat _) .exact = _
    rw [targetExponent_eq hm, hk, Nat.shiftLeft_eq]
  rw [hround, ← hvalue]
  refine isNearest_roundWithAccuracy s (by positivity) ?_
  rw [hvalue]
  omega

theorem nearest_zero : nearest 0 = 0 := (nearest_of_nonneg le_rfl).trans nearestNonneg_zero

theorem isNearest_normalize (m : Int) (e : Int) (s : Sign) :
    IsNearest (UnpackedFloat.normalize .binary32 m e s) (m * 2 ^ e) := by
  rw [UnpackedFloat.normalize]
  rcases lt_trichotomy m 0 with hm | rfl | hm
  · rw [compare_lt_iff_lt.mpr hm]
    have hround := isNearest_round .negative (m := (-m).toNat) (by omega) e
    have hcast : (((-m).toNat : ℕ) : ℚ) = -m := by
      exact_mod_cast Int.toNat_of_nonneg (by omega)
    rw [hcast, neg_mul] at hround
    change IsNearest _ (- -((m : ℚ) * 2 ^ e)) at hround
    rw [neg_neg] at hround
    exact hround
  · rw [compare_eq_iff_eq.mpr rfl, Int.cast_zero, zero_mul]
    exact ⟨trivial, rfl, nearest_zero.symm⟩
  · rw [compare_gt_iff_gt.mpr hm]
    have hround := isNearest_round .positive (m := m.toNat) (by omega) e
    have hcast : ((m.toNat : ℕ) : ℚ) = m := by
      exact_mod_cast Int.toNat_of_nonneg hm.le
    rw [hcast] at hround
    exact hround

/-- A number on the grid is the nearest one to itself. -/
theorem isNearest_self {x : UnpackedFloat} (h : OnGrid x) (hfinite : x.isFinite = true) :
    IsNearest x (value x) := by
  cases x with
  | infinity s => cases hfinite
  | notANumber => cases hfinite
  | zero s => exact ⟨trivial, rfl, nearest_zero.symm⟩
  | finite s m e hm =>
    refine ⟨h, rfl, ?_⟩
    show signed s _ = nearest (signed s _)
    rw [nearest_signed s (value_finite_pos hm).le, Aligned.nearestNonneg_eq h]

/-! ## Sums, products and whole numbers -/

theorem signed_apply (s : Sign) (m : Nat) (e : Int) :
    ((s.apply m : ℤ) : ℚ) * 2 ^ e = signed s (m * 2 ^ e) := by
  cases s <;> simp [Sign.apply, signed]

theorem decreaseExponent_value (m : Nat) {e f : Int} (h : f ≤ e) :
    ((decreaseExponent m e f).1 : ℚ) * 2 ^ f = m * 2 ^ e := by
  obtain ⟨k, hk⟩ := Int.eq_ofNat_of_zero_le (sub_nonneg.mpr h)
  rw [decreaseExponent, hk, show e = k + f by omega, zpow_add₀ (by norm_num), ← mul_assoc]
  simp [Nat.shiftLeft_eq]

theorem isNearest_add_finite {s t : Sign} {m n : Nat} {e f : Int} (hm : 0 < m) (hn : 0 < n) :
    IsNearest (UnpackedFloat.add .binary32 (.finite s m e hm) (.finite t n f hn))
      (signed s (m * 2 ^ e) + signed t (n * 2 ^ f)) := by
  have hsum := isNearest_normalize
    (s.apply (decreaseExponent m e (min e f)).1 + t.apply (decreaseExponent n f (min e f)).1)
    (min e f) .positive
  rw [Int.cast_add, add_mul, signed_apply, signed_apply,
    decreaseExponent_value m (min_le_left e f), decreaseExponent_value n (min_le_right e f)] at hsum
  exact hsum

/-- A sum of finite numbers is rounded to the nearest number. -/
theorem isNearest_add {x y : UnpackedFloat} (hx : OnGrid x) (hy : OnGrid y)
    (hfx : x.isFinite = true) (hfy : y.isFinite = true) :
    IsNearest (UnpackedFloat.add .binary32 x y) (value x + value y) := by
  cases x with
  | infinity s => cases hfx
  | notANumber => cases hfx
  | zero s =>
    cases y with
    | infinity t => cases hfy
    | notANumber => cases hfy
    | zero t =>
      have hzero : (0 : ℚ) = nearest (0 + 0) := by rw [add_zero, nearest_zero]
      cases s <;> cases t <;> exact ⟨trivial, rfl, hzero⟩
    | finite t n f hn =>
      show IsNearest _ (0 + _)
      rw [zero_add]
      exact isNearest_self hy hfy
  | finite s m e hm =>
    cases y with
    | infinity t => cases hfy
    | notANumber => cases hfy
    | zero t =>
      show IsNearest _ (_ + 0)
      rw [add_zero]
      exact isNearest_self hx hfx
    | finite t n f hn => exact isNearest_add_finite hm hn

theorem value_neg (x : UnpackedFloat) : value x.neg = -value x := by
  have hsigned : ∀ (s : Sign) (q : ℚ), signed (-s) q = -signed s q := by
    intro s q
    cases s with
    | negative => exact (neg_neg q).symm
    | positive => rfl
  cases x with
  | infinity s => exact hsigned s _
  | notANumber => exact neg_zero.symm
  | zero s => exact neg_zero.symm
  | finite s m e hm => exact hsigned s _

/-- A difference is the sum with the opposite number. -/
theorem sub_eq_add_neg (x y : UnpackedFloat) :
    UnpackedFloat.sub .binary32 x y = UnpackedFloat.add .binary32 x y.neg := by
  have happly : ∀ (s : Sign) (n : Int), (-s).apply n = -s.apply n := by
    intro s n
    cases s with
    | negative => exact (Int.neg_neg n).symm
    | positive => rfl
  cases x with
  | infinity s => cases y <;> rfl
  | notANumber => rfl
  | zero s => cases y <;> rfl
  | finite s m e hm =>
    cases y with
    | infinity t => rfl
    | notANumber => rfl
    | zero t => rfl
    | finite t n f hn =>
      show UnpackedFloat.normalize _ (_ - _) _ _ = UnpackedFloat.normalize _ (_ + _) _ _
      rw [happly, ← Int.sub_eq_add_neg]

theorem le_grid_of_le {q : ℚ} (hq : 0 < q) {e : ℤ} (h : 2 ^ (e + 23) ≤ q) : e ≤ grid q := by
  have hlog : e + 23 ≤ Int.log 2 q := by
    rw [← Int.zpow_le_iff_le_log (by decide) hq, Nat.cast_ofNat]
    exact h
  rw [grid]
  omega

theorem signed_mul (s t : Sign) (q r : ℚ) : signed (s * t) (q * r) = signed s q * signed t r := by
  cases s with
  | negative =>
    cases t with
    | negative => exact (neg_mul_neg q r).symm
    | positive => exact (neg_mul q r).symm
  | positive =>
    cases t with
    | negative => exact (mul_neg q r).symm
    | positive => rfl

/-- Two mantissas have enough digits together, since not both exponents are at
their lowest. -/
theorem le_grid_mul {m n : Nat} {e f : Int} (hm : 0 < m) (hn : 0 < n)
    (hx : Aligned m e) (hy : Aligned n f) : e + f ≤ grid ((m * n : ℕ) * 2 ^ (e + f)) := by
  have hmn : 0 < m * n := Nat.mul_pos hm hn
  rcases le_or_gt (e + f) (-149) with hlow | hhigh
  · exact hlow.trans (le_grid _)
  · have hfull : 2 ^ 23 ≤ m * n := by
      have hfloor := hx.floor
      rcases hx.le with he | hfull
      · exact (hy.le.resolve_left (by omega)).trans (Nat.le_mul_of_pos_left n hm)
      · exact hfull.trans (Nat.le_mul_of_pos_right m hn)
    have hfull : (2 : ℚ) ^ (23 : ℤ) ≤ (m * n : ℕ) := by exact_mod_cast hfull
    refine le_grid_of_le (value_finite_pos hmn) ?_
    rw [add_comm (e + f), zpow_add₀ (by norm_num)]
    gcongr

theorem isNearest_mul_finite {s t : Sign} {m n : Nat} {e f : Int} (hm : 0 < m) (hn : 0 < n)
    (hx : Aligned m e) (hy : Aligned n f) :
    IsNearest (UnpackedFloat.mul .binary32 (.finite s m e hm) (.finite t n f hn))
      (signed s (m * 2 ^ e) * signed t (n * 2 ^ f)) := by
  have hvalue : ((m * n : ℕ) : ℚ) * 2 ^ (e + f) = (m * 2 ^ e) * (n * 2 ^ f) := by
    rw [Nat.cast_mul, zpow_add₀ (by norm_num), mul_mul_mul_comm]
  have hround := isNearest_roundWithAccuracy (s * t) (Nat.mul_pos hm hn) (le_grid_mul hm hn hx hy)
  rw [hvalue, signed_mul] at hround
  exact hround

/-- A product of finite numbers is rounded to the nearest number. -/
theorem isNearest_mul {x y : UnpackedFloat} (hx : OnGrid x) (hy : OnGrid y)
    (hfx : x.isFinite = true) (hfy : y.isFinite = true) :
    IsNearest (UnpackedFloat.mul .binary32 x y) (value x * value y) := by
  cases x with
  | infinity s => cases hfx
  | notANumber => cases hfx
  | zero s =>
    have hzero : (0 : ℚ) = nearest (0 * value y) := by rw [zero_mul, nearest_zero]
    cases y with
    | infinity t => cases hfy
    | notANumber => cases hfy
    | zero t => exact ⟨trivial, rfl, hzero⟩
    | finite t n f hn => exact ⟨trivial, rfl, hzero⟩
  | finite s m e hm =>
    cases y with
    | infinity t => cases hfy
    | notANumber => cases hfy
    | zero t =>
      refine ⟨trivial, rfl, ?_⟩
      show (0 : ℚ) = nearest (_ * 0)
      rw [mul_zero, nearest_zero]
    | finite t n f hn => exact isNearest_mul_finite hm hn hx hy

/-! ## Single-precision numbers -/

theorem unpacked_ofModel_pack {x : UnpackedFloat} (h : OnGrid x) :
    unpacked (.ofModel (.pack x)) = overflow x :=
  unpack_pack h

theorem IsNearest.isNumber {x : UnpackedFloat} {q : ℚ} (h : IsNearest x q) :
    IsNumber (.ofModel (.pack x)) := by
  rw [IsNumber, unpacked_ofModel_pack h.onGrid, isNaN_overflow, h.isNaN]

theorem IsNearest.rational_eq {x : UnpackedFloat} {q : ℚ} (h : IsNearest x q) :
    rational (.ofModel (.pack x)) = clamp (nearest q) := by
  rw [rational, unpacked_ofModel_pack h.onGrid, value_overflow h.onGrid, h.value]

theorem unpacked_one :
    unpacked (.ofBits 0x3F800000) = .finite .positive (2 ^ 23) (-23) (by decide) := by
  show UnpackedFloat.unpack .binary32
    (UnpackedFloat.pack .binary32 (UnpackedFloat.unpack .binary32 0x3F800000#32)) = _
  rw [unpack_pack (inRange_unpack _).onGrid]
  rfl

theorem rational_one : rational (.ofBits 0x3F800000) = 1 := by
  rw [rational, unpacked_one]
  show ((2 ^ 23 : ℕ) : ℚ) * 2 ^ (-23 : ℤ) = 1
  norm_num

theorem nearest_one : nearest 1 = 1 := by
  have hself := (isNearest_self (inRange_unpacked (.ofBits 0x3F800000)).onGrid
    (by rw [unpacked_one]; rfl)).value
  change rational (.ofBits 0x3F800000) = nearest (rational (.ofBits 0x3F800000)) at hself
  rw [rational_one] at hself
  exact hself.symm

theorem clamp_one : clamp 1 = 1 := by
  rw [← rational_one, clamp_rational]

theorem mul_eq (x y : Float32) :
    x * y = .ofModel (.pack (UnpackedFloat.mul .binary32 (unpacked x) (unpacked y))) := rfl

/-- Multiplication by one changes no value. -/
theorem rational_mul_one {x : Float32} (hx : IsNumber x) :
    IsNumber (x * .ofBits 0x3F800000) ∧ rational (x * .ofBits 0x3F800000) = rational x := by
  by_cases hfinite : (unpacked x).isFinite = true
  · have honGrid := (inRange_unpacked x).onGrid
    have hmul := isNearest_mul honGrid (inRange_unpacked (.ofBits 0x3F800000)).onGrid hfinite
      (by rw [unpacked_one]; rfl)
    change IsNearest _ (rational x * rational (.ofBits 0x3F800000)) at hmul
    rw [rational_one, mul_one] at hmul
    have hself : nearest (rational x) = rational x := (isNearest_self honGrid hfinite).value.symm
    refine ⟨hmul.isNumber, hmul.rational_eq.trans ?_⟩
    rw [hself]
    exact clamp_rational x
  · obtain ⟨s, hs⟩ := exists_infinity hx hfinite
    rw [mul_eq, unpacked_one, IsNumber, rational, rational, hs,
      unpacked_ofModel_pack (by exact trivial)]
    cases s <;> exact ⟨rfl, rfl⟩

theorem ofNat_of_lt {n : Nat} (h : n < 2 ^ 23) :
    Float32.ofNat n = .ofModel (.pack (.ofNat .binary32 n)) * .ofBits 0x3F800000 := by
  have hofNat : n.toUInt64.toNat = n := by
    rw [Nat.toUInt64, UInt64.toNat_ofNat']
    omega
  show Float32.ofScientific n false 0 = _
  rw [Float32.ofScientific, dif_pos ⟨h, by decide⟩]
  show Float32.ofModel (.pack (.ofNat .binary32 n.toUInt64.toNat)) * _ = _
  rw [hofNat]
  rfl

theorem ofNat_of_le {n : Nat} (h : 2 ^ 23 ≤ n) :
    Float32.ofNat n =
      .ofModel (.pack (roundWithAccuracy .binary32 .positive (n * 2 ^ 24) (-24) .exact)) := by
  have hpow : (2 : Int) ^ Format.binary32.exponentBits = 256 := rfl
  show Float32.ofScientific n false 0 = _
  rw [Float32.ofScientific, dif_neg (by omega)]
  show Float32.ofModel (.pack (.ofScientific .binary32 n 0)) = _
  rw [UnpackedFloat.ofScientific, dif_neg (by omega), if_neg (by omega), if_neg (by omega),
    if_pos le_rfl]
  show Float32.ofModel
    (.pack (roundWithAccuracy .binary32 .positive (n <<< 24 * 1) (-24) .exact)) = _
  rw [Nat.shiftLeft_eq, mul_one]

/-- A whole number is rounded to the nearest number. -/
theorem rational_ofNat (n : Nat) :
    IsNumber (.ofNat n) ∧ rational (.ofNat n) = clamp (nearest n) := by
  rcases lt_or_ge n (2 ^ 23) with h | h
  · have hround := isNearest_normalize n 0 .positive
    rw [zpow_zero, mul_one, Int.cast_natCast] at hround
    have hone := rational_mul_one hround.isNumber
    rw [ofNat_of_lt h]
    exact ⟨hone.1, hone.2.trans hround.rational_eq⟩
  · have hvalue : ((n * 2 ^ 24 : ℕ) : ℚ) * 2 ^ (-24 : ℤ) = n := by
      push_cast
      norm_num
      ring_nf
    have hgrid : -24 ≤ grid ((n * 2 ^ 24 : ℕ) * 2 ^ (-24 : ℤ)) := by
      rw [hvalue]
      have hn : (1 : ℚ) ≤ n := by exact_mod_cast (show 1 ≤ n by omega)
      exact le_grid_of_le (by linarith) (le_trans (by norm_num) hn)
    have hround := isNearest_roundWithAccuracy .positive (by omega) hgrid
    rw [hvalue] at hround
    rw [ofNat_of_le h]
    exact ⟨hround.isNumber, hround.rational_eq⟩

end Arbor.Binary32
