import Arbor.Proofs.Nearest
import Mathlib

/-!
# Single-precision numbers as rational numbers

A single-precision number is packed into bits, and operations unpack it into a
sign, a mantissa and an exponent.  This module says which rational number that is.

*Values.*  An infinity takes the value of the first power of two that is out of
range.  So the values are ordered as the numbers are, infinities included, and
where a number is packed its value is cut off at the ends of the range
(`value_unpack_pack`).  What is not a number has no order, and its value is of no
importance.

*Alignment.*  Mantissa and exponent are aligned if they are on the grid around
their product.  For aligned numbers the order of exponents and mantissas is the
order of values (`compares_value`).
-/

namespace Arbor.Binary32

open Float.Model Float.Model.UnpackedFloat

/-! ## Aligned mantissas -/

/-- The mantissa has its 24 digits, unless the exponent is at its lowest. -/
structure Aligned (m : Nat) (e : Int) : Prop where
  /-- No grid is finer. -/
  floor : -149 ≤ e
  /-- There are not more than 24 digits. -/
  lt : m < 2 ^ 24
  /-- Above the finest grid there are not less. -/
  le : e = -149 ∨ 2 ^ 23 ≤ m

namespace Aligned

variable {m n : Nat} {e f : Int}

theorem value_lt (h : Aligned m e) : (m : ℚ) * 2 ^ e < 2 ^ (e + 24) := by
  have hm : (m : ℚ) < 2 ^ (24 : ℤ) := by exact_mod_cast h.lt
  rw [add_comm, zpow_add₀ (by norm_num)]
  gcongr

theorem le_value (h : Aligned m e) : e = -149 ∨ (2 : ℚ) ^ (e + 23) ≤ m * 2 ^ e := by
  refine h.le.imp_right fun hm => ?_
  have hm : (2 : ℚ) ^ (23 : ℤ) ≤ m := by exact_mod_cast hm
  rw [add_comm, zpow_add₀ (by norm_num)]
  gcongr

theorem grid_eq (h : Aligned m e) (hm : 0 < m) : grid (m * 2 ^ e) = e := by
  have hm : (0 : ℚ) < m := by exact_mod_cast hm
  exact Binary32.grid_eq (by positivity) h.floor h.value_lt h.le_value

/-- An aligned number is on the grid. -/
theorem nearestNonneg_eq (h : Aligned m e) : nearestNonneg (m * 2 ^ e) = m * 2 ^ e := by
  rcases Nat.eq_zero_or_pos m with rfl | hm
  · rw [Nat.cast_zero, zero_mul, nearestNonneg_zero]
  · rw [nearestNonneg, digits, h.grid_eq hm, mul_div_cancel_right₀ _ (by positivity),
      ← Int.cast_natCast, halfEven_intCast]

/-- Of two aligned numbers the one with the smaller exponent is smaller. -/
theorem value_lt_value (hm : Aligned m e) (hn : Aligned n f) (h : e < f) :
    (m : ℚ) * 2 ^ e < n * 2 ^ f := by
  have hf := hn.le_value.resolve_left (by have := hm.floor; omega)
  calc (m : ℚ) * 2 ^ e < 2 ^ (e + 24) := hm.value_lt
    _ ≤ 2 ^ (f + 23) := zpow_le_zpow_right₀ (by norm_num) (by omega)
    _ ≤ n * 2 ^ f := hf

theorem compares (hm : Aligned m e) (hn : Aligned n f) :
    ((compare e f).then (compare m n)).Compares ((m : ℚ) * 2 ^ e) (n * 2 ^ f) := by
  rcases lt_trichotomy e f with h | rfl | h
  · rw [compare_lt_iff_lt.mpr h]
    exact hm.value_lt_value hn h
  · rw [compare_eq_iff_eq.mpr rfl]
    have hpow : (0 : ℚ) < 2 ^ e := by positivity
    rcases lt_trichotomy m n with h | rfl | h
    · rw [compare_lt_iff_lt.mpr h]
      show (m : ℚ) * 2 ^ e < n * 2 ^ e
      gcongr
    · rw [compare_eq_iff_eq.mpr rfl]
      exact rfl
    · rw [compare_gt_iff_gt.mpr h]
      show (n : ℚ) * 2 ^ e < m * 2 ^ e
      gcongr
  · rw [compare_gt_iff_gt.mpr h]
    exact hn.value_lt_value hm h

end Aligned

/-! ## Values -/

/-- The number with a sign and a magnitude. -/
def signed (s : Sign) (q : ℚ) : ℚ :=
  match s with
  | .negative => -q
  | .positive => q

/-- The first power of two out of range. -/
def ceiling : ℚ := 2 ^ (128 : ℤ)

/-- The rational number that an unpacked number stands for. -/
def value : UnpackedFloat → ℚ
  | .infinity s => signed s ceiling
  | .notANumber => 0
  | .zero _ => 0
  | .finite s m e _ => signed s (m * 2 ^ e)

/-- The number is on the grid, and may be out of range. -/
def OnGrid : UnpackedFloat → Prop
  | .finite _ m e _ => Aligned m e
  | _ => True

/-- The number is on the grid and in range. -/
def InRange : UnpackedFloat → Prop
  | .finite _ m e _ => Aligned m e ∧ e ≤ 104
  | _ => True

theorem InRange.onGrid {x : UnpackedFloat} (h : InRange x) : OnGrid x := by
  cases x with
  | finite s m e hm => exact h.1
  | _ => trivial

theorem ceiling_pos : 0 < ceiling := by
  rw [ceiling]
  positivity

theorem value_lt_ceiling {m : Nat} {e : Int} (h : Aligned m e) (he : e ≤ 104) :
    (m : ℚ) * 2 ^ e < ceiling :=
  h.value_lt.trans_le (zpow_le_zpow_right₀ (by norm_num) (by omega))

theorem ceiling_le_value {m : Nat} {e : Int} (h : Aligned m e) (he : 105 ≤ e) :
    ceiling ≤ (m : ℚ) * 2 ^ e :=
  (zpow_le_zpow_right₀ (by norm_num) (by omega)).trans (h.le_value.resolve_left (by omega))

theorem exists_infinity {x : UnpackedFloat} (hnumber : x.isNaN = false)
    (hfinite : ¬ x.isFinite = true) : ∃ s, x = .infinity s := by
  cases x with
  | infinity s => exact ⟨s, rfl⟩
  | notANumber => cases hnumber
  | zero s => exact absurd rfl hfinite
  | finite s m e hm => exact absurd rfl hfinite

theorem value_mem_Ioo {x : UnpackedFloat} (hx : InRange x) (hfinite : x.isFinite = true) :
    -ceiling < value x ∧ value x < ceiling := by
  have hceiling := ceiling_pos
  cases x with
  | infinity s => cases hfinite
  | notANumber => cases hfinite
  | zero s => exact ⟨by simpa [value] using hceiling, hceiling⟩
  | finite s m e hm =>
    have hlt := value_lt_ceiling hx.1 hx.2
    have hpos : (0 : ℚ) ≤ m * 2 ^ e := by positivity
    cases s with
    | negative => exact ⟨neg_lt_neg hlt, by show -((m : ℚ) * 2 ^ e) < ceiling; linarith⟩
    | positive => exact ⟨by show -ceiling < (m : ℚ) * 2 ^ e; linarith, hlt⟩

theorem value_mem_Icc {x : UnpackedFloat} (hx : InRange x) :
    -ceiling ≤ value x ∧ value x ≤ ceiling := by
  have hceiling := ceiling_pos
  cases x with
  | infinity s =>
    cases s with
    | negative => exact ⟨le_rfl, by show -ceiling ≤ ceiling; linarith⟩
    | positive => exact ⟨by show -ceiling ≤ ceiling; linarith, le_rfl⟩
  | notANumber => exact ⟨by show -ceiling ≤ 0; linarith, hceiling.le⟩
  | zero s => exact (value_mem_Ioo hx rfl).imp le_of_lt le_of_lt
  | finite s m e hm => exact (value_mem_Ioo hx rfl).imp le_of_lt le_of_lt

theorem value_finite_pos {m : Nat} {e : Int} (hm : 0 < m) : (0 : ℚ) < m * 2 ^ e := by
  have hm : (0 : ℚ) < m := by exact_mod_cast hm
  positivity

theorem compares_infinity {s : Sign} {y : UnpackedFloat} (hy : InRange y) {o : Ordering}
    (h : UnpackedFloat.compare (.infinity s) y = some o) :
    o.Compares (signed s ceiling) (value y) := by
  have hceiling : -ceiling < ceiling := neg_lt_self ceiling_pos
  cases s with
  | positive =>
    cases y with
    | notANumber => cases h
    | infinity t =>
      cases t with
      | negative => cases h; exact hceiling
      | positive => cases h; exact rfl
    | zero t => cases h; exact ceiling_pos
    | finite t n f hn => cases h; exact (value_mem_Ioo hy rfl).2
  | negative =>
    cases y with
    | notANumber => cases h
    | infinity t =>
      cases t with
      | negative => cases h; exact rfl
      | positive => cases h; exact hceiling
    | zero t => cases h; exact neg_lt_zero.mpr ceiling_pos
    | finite t n f hn => cases h; exact (value_mem_Ioo hy rfl).1

theorem compare_infinity (x : UnpackedFloat) (s : Sign) :
    x.compare (.infinity s) = (UnpackedFloat.compare (.infinity s) x).map Ordering.swap := by
  cases x with
  | infinity t => cases s <;> cases t <;> rfl
  | notANumber => cases s <;> rfl
  | zero t => cases s <;> rfl
  | finite t m e hm => cases s <;> cases t <;> rfl

theorem compares_finite {s t : Sign} {m n : Nat} {e f : Int} (hm : 0 < m) (hn : 0 < n)
    (hx : Aligned m e) (hy : Aligned n f) {o : Ordering}
    (h : UnpackedFloat.compare (.finite s m e hm) (.finite t n f hn) = some o) :
    o.Compares (signed s (m * 2 ^ e)) (signed t (n * 2 ^ f)) := by
  have hm := value_finite_pos hm (e := e)
  have hn := value_finite_pos hn (e := f)
  cases s with
  | positive =>
    cases t with
    | positive => cases h; exact hx.compares hy
    | negative => cases h; show -((n : ℚ) * 2 ^ f) < m * 2 ^ e; linarith
  | negative =>
    cases t with
    | positive => cases h; show -((m : ℚ) * 2 ^ e) < n * 2 ^ f; linarith
    | negative =>
      cases h
      have hswap := (hx.compares hy).swap
      rw [← Ordering.compares_swap]
      cases ho : (compare e f).then (compare m n) with
      | lt => rw [ho] at hswap; exact neg_lt_neg hswap
      | eq => rw [ho] at hswap; exact congrArg Neg.neg hswap
      | gt => rw [ho] at hswap; exact neg_lt_neg hswap

/-- Numbers are compared as their values are. -/
theorem compares_value {x y : UnpackedFloat} (hx : InRange x) (hy : InRange y) {o : Ordering}
    (h : x.compare y = some o) : o.Compares (value x) (value y) := by
  cases y with
  | infinity t =>
    rw [compare_infinity, Option.map_eq_some_iff] at h
    obtain ⟨o, ho, rfl⟩ := h
    exact (compares_infinity hx ho).swap
  | notANumber =>
    cases x with
    | infinity s => cases s <;> cases h
    | notANumber => cases h
    | zero s => cases h
    | finite s m e hm => cases s <;> cases h
  | zero t =>
    cases x with
    | infinity s => exact compares_infinity hy h
    | notANumber => cases h
    | zero s => cases h; exact rfl
    | finite s m e hm =>
      have hpos := value_finite_pos hm (e := e)
      cases s with
      | negative => cases h; exact neg_lt_zero.mpr hpos
      | positive => cases h; exact hpos
  | finite t n f hn =>
    cases x with
    | infinity s => exact compares_infinity hy h
    | notANumber => cases h
    | zero s =>
      have hpos := value_finite_pos hn (e := f)
      cases t with
      | negative => cases h; exact neg_lt_zero.mpr hpos
      | positive => cases h; exact hpos
    | finite s m e hm => exact compares_finite hm hn hx.1 hy.1 h

theorem exists_compare {x y : UnpackedFloat} (hx : x.isNaN = false) (hy : y.isNaN = false) :
    ∃ o, x.compare y = some o := by
  cases x with
  | notANumber => cases hx
  | infinity s =>
    cases y with
    | notANumber => cases hy
    | infinity t => exact ⟨_, rfl⟩
    | zero t => cases s <;> exact ⟨_, rfl⟩
    | finite t n f hn => cases s <;> exact ⟨_, rfl⟩
  | zero s =>
    cases y with
    | notANumber => cases hy
    | infinity t => cases t <;> exact ⟨_, rfl⟩
    | zero t => exact ⟨_, rfl⟩
    | finite t n f hn => cases t <;> exact ⟨_, rfl⟩
  | finite s m e hm =>
    cases y with
    | notANumber => cases hy
    | infinity t => cases s <;> cases t <;> exact ⟨_, rfl⟩
    | zero t => cases s <;> exact ⟨_, rfl⟩
    | finite t n f hn => cases s <;> cases t <;> exact ⟨_, rfl⟩

theorem isNaN_of_compare {x y : UnpackedFloat} {o : Ordering} (h : x.compare y = some o) :
    x.isNaN = false ∧ y.isNaN = false := by
  cases x with
  | notANumber => cases h
  | infinity s => cases y with
    | notANumber => cases s <;> cases h
    | _ => exact ⟨rfl, rfl⟩
  | zero s => cases y with
    | notANumber => cases h
    | _ => exact ⟨rfl, rfl⟩
  | finite s m e hm => cases y with
    | notANumber => cases s <;> cases h
    | _ => exact ⟨rfl, rfl⟩

/-! ## Packing -/

/-- A number out of range becomes infinite. -/
def overflow : UnpackedFloat → UnpackedFloat
  | .finite s m e h => if 105 ≤ e then .infinity s else .finite s m e h
  | x => x

/-- The leading digit is not stored. -/
theorem toNat_append_one (m : BitVec 23) : (1#1 ++ m).toNat = 2 ^ 23 + m.toNat := by
  rw [BitVec.toNat_append, BitVec.toNat_ofNat, Nat.one_mod_two_pow_eq_one.mpr (by decide),
    Nat.shiftLeft_eq, one_mul, Nat.or_comm, Nat.or_two_pow_eq_add_of_lt m.isLt, add_comm]

/-- The number with the given sign and fields. -/
def ofFields (s : Sign) (e : BitVec 8) (m : BitVec 23) : UnpackedFloat :=
  if e = -1#8 then if m = 0#23 then .infinity s else .notANumber
  else if e = 0#8 then
    if h : m = 0#23 then .zero s
    else .finite s m.toNat (-149) (Nat.pos_of_ne_zero fun hz => h (BitVec.eq_of_toNat_eq hz))
  else .finite s (2 ^ 23 + m.toNat) (e.toNat - 150) (by omega)

theorem unpack_eq_ofFields (b : BitVec 32) :
    UnpackedFloat.unpack .binary32 b = ofFields (.ofBitVec (@unpackSign .binary32 b))
      (@unpackExponent .binary32 b) (@unpackMantissa .binary32 b) := by
  simp only [UnpackedFloat.unpack, ofFields, toNat_append_one]
  split_ifs with _ _ hzero
  · rfl
  · rfl
  · rfl
  · congr 1
    rw [hzero]
    rfl
  · rfl

theorem unpack_packComponents (s : Sign) (e : BitVec 8) (m : BitVec 23) :
    UnpackedFloat.unpack .binary32 (packComponents .binary32 s e m) = ofFields s e m := by
  rw [unpack_eq_ofFields, unpackSign_packComponents, unpackExponent_packComponents,
    unpackMantissa_packComponents, Sign.ofBitVec_toBitVec]

theorem inRange_ofFields (s : Sign) (e : BitVec 8) (m : BitVec 23) :
    InRange (ofFields s e m) := by
  have hm := m.isLt
  have he := e.isLt
  rw [ofFields]
  split_ifs with hones _ hzero
  · trivial
  · trivial
  · trivial
  · exact ⟨⟨by omega, by omega, .inl rfl⟩, by omega⟩
  · have hlt : e.toNat ≠ 255 := fun h => hones (BitVec.eq_of_toNat_eq h)
    have hpos : e.toNat ≠ 0 := fun h => hzero (BitVec.eq_of_toNat_eq h)
    exact ⟨⟨by omega, by omega, .inr (by omega)⟩, by omega⟩

/-- Numbers read from bits are on the grid and in range. -/
theorem inRange_unpack (b : BitVec 32) : InRange (UnpackedFloat.unpack .binary32 b) := by
  rw [unpack_eq_ofFields]
  exact inRange_ofFields ..

theorem pack_finite {s : Sign} {m : Nat} {e : Int} (hm : 0 < m) (h : Aligned m e) :
    UnpackedFloat.pack .binary32 (.finite s m e hm) =
      if 105 ≤ e then packedInfinity .binary32 s
      else if 2 ^ 23 ≤ m then
        packComponents .binary32 s (BitVec.ofNat 8 (e + 150).toNat) (BitVec.ofNat 23 m)
      else packComponents .binary32 s 0#8 (BitVec.ofNat 23 m) := by
  have hfloor := h.floor
  have hlt := h.lt
  have hbias : e + Format.binary32.exponentBias + Format.binary32.mantissaBitsWithoutImplicit =
      e + 150 := add_assoc e 127 23
  have hover : 2 ^ Format.binary32.exponentBits ≤ (e + 150).toNat + 1 ↔ 105 ≤ e := by
    show 256 ≤ (e + 150).toNat + 1 ↔ 105 ≤ e
    omega
  have hdigits : m.log2 + 1 = Format.binary32.mantissaBits ↔ 2 ^ 23 ≤ m := by
    show m.log2 + 1 = 24 ↔ 2 ^ 23 ≤ m
    have hlog : m.log2 = 23 ↔ 2 ^ 23 ≤ m ∧ m < 2 ^ (23 + 1) := Nat.log2_eq_iff hm.ne'
    omega
  simp only [UnpackedFloat.pack, hbias, hover, hdigits]

/-- A number on the grid is packed as it is, unless it is out of range. -/
theorem unpack_pack {x : UnpackedFloat} (h : OnGrid x) :
    UnpackedFloat.unpack .binary32 (UnpackedFloat.pack .binary32 x) = overflow x := by
  cases x with
  | notANumber => rfl
  | infinity s => exact unpack_packComponents ..
  | zero s => exact unpack_packComponents ..
  | finite s m e hm =>
    obtain ⟨hfloor, hlt, hle⟩ := h
    rw [pack_finite hm ⟨hfloor, hlt, hle⟩, overflow]
    by_cases hover : 105 ≤ e
    · rw [if_pos hover, if_pos hover]
      exact unpack_packComponents ..
    · rw [if_neg hover, if_neg hover]
      have hmantissa : (BitVec.ofNat 23 m).toNat = m % 2 ^ 23 := BitVec.toNat_ofNat ..
      by_cases hfull : 2 ^ 23 ≤ m
      · have hexponent : (BitVec.ofNat 8 (e + 150).toNat).toNat = (e + 150).toNat := by
          rw [BitVec.toNat_ofNat]
          omega
        have hones : BitVec.ofNat 8 (e + 150).toNat ≠ -1#8 := by
          intro h
          rw [h] at hexponent
          change 255 = _ at hexponent
          omega
        have hzero : BitVec.ofNat 8 (e + 150).toNat ≠ 0#8 := by
          intro h
          rw [h] at hexponent
          change 0 = _ at hexponent
          omega
        rw [if_pos hfull, unpack_packComponents, ofFields, if_neg hones, if_neg hzero]
        congr 1
        · omega
        · omega
      · have hzero : BitVec.ofNat 23 m ≠ 0#23 := by
          intro h
          rw [h] at hmantissa
          change 0 = _ at hmantissa
          omega
        rw [if_neg hfull, unpack_packComponents, ofFields, if_neg (by decide), if_pos rfl,
          dif_neg hzero]
        congr 1
        · omega
        · omega

/-- A value cut off at the ends of the range. -/
def clamp (q : ℚ) : ℚ := max (-ceiling) (min q ceiling)

theorem clamp_mono {q r : ℚ} (h : q ≤ r) : clamp q ≤ clamp r :=
  max_le_max_left _ (min_le_min_right _ h)

theorem clamp_of_le {q : ℚ} (h : ceiling ≤ q) : clamp q = ceiling := by
  have hceiling := ceiling_pos
  rw [clamp, min_eq_right h, max_eq_right (by linarith)]

theorem clamp_of_ge {q : ℚ} (h : q ≤ -ceiling) : clamp q = -ceiling := by
  have hceiling := ceiling_pos
  rw [clamp, min_eq_left (by linarith), max_eq_left h]

theorem clamp_of_mem {q : ℚ} (hlower : -ceiling ≤ q) (hupper : q ≤ ceiling) : clamp q = q := by
  rw [clamp, min_eq_left hupper, max_eq_right hlower]

theorem value_overflow {x : UnpackedFloat} (h : OnGrid x) :
    value (overflow x) = clamp (value x) := by
  have hceiling := ceiling_pos
  cases x with
  | notANumber => exact (clamp_of_mem (by show -ceiling ≤ 0; linarith) hceiling.le).symm
  | zero s => exact (clamp_of_mem (by show -ceiling ≤ 0; linarith) hceiling.le).symm
  | infinity s =>
    cases s with
    | negative => exact (clamp_of_ge le_rfl).symm
    | positive => exact (clamp_of_le le_rfl).symm
  | finite s m e hm =>
    rw [overflow]
    by_cases hover : 105 ≤ e
    · have hlarge := ceiling_le_value h hover
      rw [if_pos hover]
      cases s with
      | negative => exact (clamp_of_ge (neg_le_neg hlarge)).symm
      | positive => exact (clamp_of_le hlarge).symm
    · rw [if_neg hover]
      have hrange : InRange (.finite s m e hm) := ⟨h, by omega⟩
      obtain ⟨hlower, hupper⟩ := value_mem_Ioo hrange rfl
      exact (clamp_of_mem hlower.le hupper.le).symm

theorem isNaN_overflow (x : UnpackedFloat) : (overflow x).isNaN = x.isNaN := by
  cases x with
  | finite s m e hm =>
    rw [overflow]
    split <;> rfl
  | _ => rfl

/-! ## Packed numbers -/

/-- The unpacked form of a single-precision number. -/
def unpacked (x : Float32) : UnpackedFloat := x.toModel.unpack

/-- The rational number that a single-precision number stands for. -/
def rational (x : Float32) : ℚ := value (unpacked x)

/-- Not one of those that are not a number. -/
def IsNumber (x : Float32) : Prop := (unpacked x).isNaN = false

theorem inRange_unpacked (x : Float32) : InRange (unpacked x) := inRange_unpack _

theorem clamp_rational (x : Float32) : clamp (rational x) = rational x := by
  obtain ⟨hlower, hupper⟩ := value_mem_Icc (inRange_unpacked x)
  exact clamp_of_mem hlower hupper

theorem lt_iff {x y : Float32} :
    x < y ↔ IsNumber x ∧ IsNumber y ∧ rational x < rational y := by
  have hlt : x < y ↔ (unpacked x).compare (unpacked y) = some .lt := by
    show decide ((unpacked x).lt (unpacked y) = true) = true ↔ _
    rw [decide_eq_true_iff, UnpackedFloat.lt, beq_iff_eq]
  rw [hlt]
  constructor
  · intro h
    obtain ⟨hx, hy⟩ := isNaN_of_compare h
    exact ⟨hx, hy, compares_value (inRange_unpacked x) (inRange_unpacked y) h⟩
  · rintro ⟨hx, hy, h⟩
    obtain ⟨o, ho⟩ := exists_compare hx hy
    have hvalue := compares_value (inRange_unpacked x) (inRange_unpacked y) ho
    rw [ho, hvalue.eq_lt.mpr h]

theorem rational_le_of_le {x y : Float32} (h : x ≤ y) :
    IsNumber x ∧ IsNumber y ∧ rational x ≤ rational y := by
  have hle : ∃ o, (unpacked x).compare (unpacked y) = some o ∧ o.isLE := by
    change decide ((unpacked x).le (unpacked y) = true) = true at h
    rw [decide_eq_true_iff, UnpackedFloat.le, Option.any_eq_true] at h
    exact h
  obtain ⟨o, ho, hle⟩ := hle
  obtain ⟨hx, hy⟩ := isNaN_of_compare ho
  refine ⟨hx, hy, ?_⟩
  have hvalue := compares_value (inRange_unpacked x) (inRange_unpacked y) ho
  refine hvalue.ne_gt.mp ?_
  rintro rfl
  cases hle

end Arbor.Binary32
