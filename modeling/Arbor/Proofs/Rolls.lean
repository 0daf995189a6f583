import Arbor.Proofs.Monotone
import Arbor.Random

/-!
# Rolls

A roll has to be below a full turn.  It is drawn as words are, until one of them gives a
roll that is (`RandomSource.Draw`), and that is the first one (`RandomSource.draw_iff`),
whatever words the source gives.

*Bounds.*  The upper 23 bits of a word, put behind the point of a number between one and
two, leave a fraction that is at least `2 ^ (-23)` below one (`Binary32.upTo_fraction`).
A full turn has more than `2 ^ 23` units in its last place, so that much of it is more
than one unit, and the product is rounded to a number below it
(`RandomSource.roll_lt_fullTurn`).

*Runs.*  So rolls drawn one after the other are those of the states on the way
(`RandomSource.draws_iff`, `RandomSource.getElem?_rolls`).
-/

namespace Arbor

namespace Binary32

open Float.Model Float.Model.UnpackedFloat

/-! ## Numbers between one and two -/

theorem overflow_of_inRange {x : UnpackedFloat} (h : InRange x) : overflow x = x := by
  cases x with
  | finite s m e hm => exact if_neg (by have := h.2; omega)
  | _ => rfl

/-- A number made of bits is what the bits say. -/
theorem unpacked_ofBits (b : UInt32) :
    unpacked (.ofBits b) = UnpackedFloat.unpack .binary32 b.toBitVec := by
  have hrange := inRange_unpack b.toBitVec
  show UnpackedFloat.unpack .binary32
    (UnpackedFloat.pack .binary32 (UnpackedFloat.unpack .binary32 b.toBitVec)) = _
  rw [unpack_pack hrange.onGrid, overflow_of_inRange hrange]

/-- Below the bits of one there is room for 23 others. -/
theorem toBitVec_or_shiftRight (x : UInt32) :
    ((0x3f800000 : UInt32) ||| (x >>> 9)).toBitVec =
      packComponents .binary32 .positive 127#8 (BitVec.ofNat 23 (x.toNat / 2 ^ 9)) := by
  have hlt := x.toNat_lt
  have hfield : x.toNat / 2 ^ 9 < 2 ^ 23 := by omega
  apply BitVec.eq_of_toNat_eq
  have hleft : ((0x3f800000 : UInt32) ||| (x >>> 9)).toBitVec.toNat =
      0x3f800000 ||| x.toNat / 2 ^ 9 := by
    rw [UInt32.toNat_toBitVec, UInt32.toNat_or, UInt32.toNat_shiftRight, Nat.shiftRight_eq_div_pow]
    rfl
  have hright : (packComponents .binary32 .positive 127#8
      (BitVec.ofNat 23 (x.toNat / 2 ^ 9))).toNat = 0x3f800000 ||| x.toNat / 2 ^ 9 := by
    have hone : 127 <<< 23 = 0x3f800000 := rfl
    rw [packComponents, BitVec.toNat_append]
    show (127 <<< 23 ||| x.toNat / 2 ^ 9 % 2 ^ 23) = _
    rw [Nat.mod_eq_of_lt hfield, hone]
  rw [hleft, hright]

/-- A number between one and two is made of 23 bits of a word. -/
theorem unpacked_word (x : UInt32) :
    unpacked (.ofBits ((0x3f800000 : UInt32) ||| (x >>> 9))) =
      .finite .positive (2 ^ 23 + x.toNat / 2 ^ 9) (-23) (by omega) := by
  have hlt := x.toNat_lt
  have hfield : (BitVec.ofNat 23 (x.toNat / 2 ^ 9)).toNat = x.toNat / 2 ^ 9 := by
    rw [BitVec.toNat_ofNat, Nat.mod_eq_of_lt (by omega)]
  rw [unpacked_ofBits, toBitVec_or_shiftRight, unpack_packComponents, ofFields,
    if_neg (by decide), if_neg (by decide)]
  congr 1
  rw [hfield]

/-! ## Bounds -/

/-- The number is finite and from zero up to another one. -/
structure UpTo (t x : Float32) : Prop where
  /-- It is finite. -/
  finite : (unpacked x).isFinite = true
  /-- It is not negative. -/
  nonneg : 0 ≤ rational x
  /-- It is not above the other one. -/
  le : rational x ≤ rational t

theorem isNumber_of_finite {x : Float32} (h : (unpacked x).isFinite = true) : IsNumber x := by
  rw [IsNumber]
  cases hx : unpacked x with
  | notANumber =>
    rw [hx] at h
    cases h
  | _ => rfl

theorem finite_of_mem {x : Float32} (hnumber : IsNumber x) (hnonneg : 0 ≤ rational x)
    (hlt : rational x < ceiling) : (unpacked x).isFinite = true := by
  refine Classical.byContradiction fun hinfinite => ?_
  obtain ⟨s, hs⟩ := exists_infinity hnumber hinfinite
  rw [rational_of_infinity hs] at hnonneg hlt
  cases eq_negative hlt
  exact absurd hnonneg (not_le.mpr (neg_lt_zero.mpr ceiling_pos))

/-- What is rounded up to no more than a number does not get past it. -/
theorem upTo_of_isNearest {x : UnpackedFloat} {q : ℚ} {t : Float32} (h : IsNearest x q)
    (hq : 0 ≤ q) (hfinite : (unpacked t).isFinite = true) (hle : q ≤ rational t) :
    UpTo t (.ofModel (.pack x)) := by
  have hself : rational t = nearest (rational t) :=
    (isNearest_self (inRange_unpacked t).onGrid hfinite).value
  have hnonneg : 0 ≤ rational (.ofModel (.pack x)) := by
    rw [h.rational_eq, ← clamp_nearest_zero]
    exact clamp_mono (nearest_mono hq)
  have hbound : rational (.ofModel (.pack x)) ≤ rational t := by
    rw [h.rational_eq, ← clamp_rational t, hself]
    exact clamp_mono (nearest_mono hle)
  have hlt := hbound.trans_lt (rational_mem_of_finite hfinite).2
  exact ⟨finite_of_mem h.isNumber hnonneg hlt, hnonneg, hbound⟩

theorem rational_of_finite {x : Float32} {s : Sign} {m : Nat} {e : Int} {hm : 0 < m}
    (h : unpacked x = .finite s m e hm) : rational x = signed s (m * 2 ^ e) := by
  rw [rational, h]
  rfl

theorem UpTo.mul {b c t x : Float32} (h : UpTo t x) (hc : UpTo c c)
    (hfinite : (unpacked b).isFinite = true) (hle : rational t * rational c ≤ rational b) :
    UpTo b (x * c) := by
  have hproduct := isNearest_mul (inRange_unpacked x).onGrid (inRange_unpacked c).onGrid h.finite
    hc.finite
  have hbound : rational x * rational c ≤ rational b :=
    (mul_le_mul_of_nonneg_right h.le hc.nonneg).trans hle
  exact upTo_of_isNearest hproduct (mul_nonneg h.nonneg hc.nonneg) hfinite hbound

theorem upTo_add {t x y : Float32} (hx : (unpacked x).isFinite = true)
    (hy : (unpacked y).isFinite = true) (hfinite : (unpacked t).isFinite = true)
    (hnonneg : 0 ≤ rational x + rational y) (hle : rational x + rational y ≤ rational t) :
    UpTo t (x + y) :=
  upTo_of_isNearest (isNearest_add (inRange_unpacked x).onGrid (inRange_unpacked y).onGrid hx hy)
    hnonneg hfinite hle

/-! ## Fractions of a turn -/

/-- The largest fraction. -/
def largest : Float32 := .ofBits 0x3f7ffffe

/-- A full turn less one unit in the last place. -/
def almostFull : Float32 := .ofBits 0x40c90fda

theorem unpacked_largest : unpacked largest = .finite .positive (2 ^ 24 - 2) (-24) (by decide) := by
  rw [largest, unpacked_ofBits]
  rfl

theorem unpacked_almostFull :
    unpacked almostFull = .finite .positive 13176794 (-21) (by decide) := by
  rw [almostFull, unpacked_ofBits]
  rfl

theorem unpacked_fullTurn : unpacked fullTurn = .finite .positive 13176795 (-21) (by decide) := by
  have hbits : fullTurn = .ofBits 0x40c90fdb := by decide +kernel
  rw [hbits, unpacked_ofBits]
  rfl

theorem unpacked_zero : unpacked 0 = .zero .positive := by
  have hbits : (0 : Float32) = .ofBits 0 := by decide +kernel
  rw [hbits, unpacked_ofBits]
  rfl

theorem unpacked_neg_one : unpacked (-1) = .finite .negative (2 ^ 23) (-23) (by decide) := by
  have hbits : (1 : Float32) = .ofBits 0x3f800000 := by decide +kernel
  rw [hbits, unpacked_neg, unpacked_one]
  rfl

/-- A number between one and two, less one, is a fraction. -/
theorem upTo_fraction (x : UInt32) : UpTo largest (RandomSource.fraction x) := by
  have hlt := x.toNat_lt
  have hupper : ((x.toNat / 2 ^ 9 : ℕ) : ℚ) + 1 ≤ 2 ^ 23 := by
    have hfield : x.toNat / 2 ^ 9 + 1 ≤ 2 ^ 23 := by omega
    exact_mod_cast hfield
  have hlower : (0 : ℚ) ≤ (x.toNat / 2 ^ 9 : ℕ) := Nat.cast_nonneg _
  have hword := unpacked_word x
  have hsum : rational (.ofBits ((0x3f800000 : UInt32) ||| (x >>> 9))) + rational (-1) =
      (x.toNat / 2 ^ 9 : ℕ) * 2 ^ (-23 : ℤ) := by
    rw [rational_of_finite hword, rational_of_finite unpacked_neg_one, signed, signed, Nat.cast_add]
    norm_num
    ring
  rw [RandomSource.fraction, sub_eq_add]
  refine upTo_add (by rw [hword]; rfl) (by rw [unpacked_neg_one]; rfl)
    (by rw [unpacked_largest]; rfl) ?_ ?_
  · rw [hsum]
    positivity
  · rw [hsum, rational_of_finite unpacked_largest, signed]
    norm_num
    linarith

/-- A fraction of a full turn is below it by one unit in the last place. -/
theorem upTo_roll {σ : Type} [RandomSource σ] (r : σ) :
    UpTo almostFull (RandomSource.roll r) := by
  have hturn : UpTo fullTurn fullTurn := by
    refine ⟨by rw [unpacked_fullTurn]; rfl, ?_, le_rfl⟩
    rw [rational_of_finite unpacked_fullTurn, signed]
    positivity
  have hfinite : (unpacked almostFull).isFinite = true := by
    rw [unpacked_almostFull]
    rfl
  have hproduct : UpTo almostFull (RandomSource.fraction (RandomSource.bits r) * fullTurn) := by
    refine (upTo_fraction _).mul hturn hfinite ?_
    rw [rational_of_finite unpacked_largest, rational_of_finite unpacked_fullTurn,
      rational_of_finite unpacked_almostFull, signed, signed, signed]
    norm_num
  have hzero : rational 0 = 0 := by
    rw [rational, unpacked_zero]
    rfl
  refine upTo_add hproduct.finite (by rw [unpacked_zero]; rfl) hfinite ?_ ?_
  · rw [hzero, add_zero]
    exact hproduct.nonneg
  · rw [hzero, add_zero]
    exact hproduct.le

theorem UpTo.lt_fullTurn {x : Float32} (h : UpTo almostFull x) : x < fullTurn := by
  have hbound : almostFull < fullTurn := by decide +kernel
  obtain ⟨-, hnumber, hlt⟩ := lt_iff.mp hbound
  exact lt_iff.mpr ⟨isNumber_of_finite h.finite, hnumber, h.le.trans_lt hlt⟩

end Binary32

namespace RandomSource

variable {σ : Type} [RandomSource σ]

/-- Every word gives a roll below a full turn. -/
theorem roll_lt_fullTurn (r : σ) : roll r < fullTurn :=
  (Binary32.upTo_roll r).lt_fullTurn

/-! ## Runs -/

/-- A roll is drawn: one word after the other, until its roll is below a full turn. -/
inductive Draw : σ → Float32 → σ → Prop
  /-- The roll of the next word will do. -/
  | kept {r : σ} (h : roll r < fullTurn) : Draw r (roll r) (next r)
  /-- It will not, and is drawn again. -/
  | again {r r' : σ} {x : Float32} (h : ¬ roll r < fullTurn) (hrest : Draw (next r) x r') :
    Draw r x r'

/-- Some rolls are drawn one after the other. -/
inductive Draws : σ → List Float32 → σ → Prop
  /-- Nothing is drawn. -/
  | nil {r : σ} : Draws r [] r
  /-- One roll is drawn and then the other ones. -/
  | cons {r r' r'' : σ} {x : Float32} {xs : List Float32} (h : Draw r x r')
    (hrest : Draws r' xs r'') : Draws r (x :: xs) r''

/-- No roll is drawn twice. -/
theorem draw_iff {r r' : σ} {x : Float32} : Draw r x r' ↔ x = roll r ∧ r' = next r := by
  constructor
  · intro h
    cases h with
    | kept _ => exact ⟨rfl, rfl⟩
    | again h _ => exact absurd (roll_lt_fullTurn r) h
  · rintro ⟨rfl, rfl⟩
    exact .kept (roll_lt_fullTurn r)

theorem toList_drawOnto (n : Nat) (drawn : Array Float32) (r : σ) :
    (drawOnto n drawn r).1.toList = drawn.toList ++ (rolls n r).1 := by
  induction n generalizing drawn r with
  | zero => exact (List.append_nil _).symm
  | succ n ih =>
    show (drawOnto n (drawn.push (roll r)) (next r)).1.toList =
      _ ++ (drawOnto n (#[].push (roll r)) (next r)).1.toList
    rw [ih, ih, Array.toList_push, Array.toList_push, List.append_assoc, List.append_assoc]
    rfl

theorem rolls_succ (n : Nat) (r : σ) :
    (rolls (n + 1) r).1 = roll r :: (rolls n (next r)).1 :=
  toList_drawOnto n #[roll r] (next r)

/-- Each roll is that of a state on the way. -/
theorem getElem?_rolls {n k : Nat} (h : k < n) (r : σ) :
    (rolls n r).1[k]? = some (roll (skip k r)) := by
  induction n generalizing k r with
  | zero => cases h
  | succ n ih =>
    rw [rolls_succ]
    cases k with
    | zero => rfl
    | succ k => exact ih (Nat.lt_of_succ_lt_succ h) (next r)

theorem skip_add (m n : Nat) (r : σ) : skip (m + n) r = skip n (skip m r) := by
  induction m generalizing r with
  | zero => rw [Nat.zero_add]; rfl
  | succ m ih => rw [Nat.succ_add]; exact ih (next r)

/-- The rolls drawn from a state are the next ones. -/
theorem draws_iff {r r' : σ} {xs : List Float32} :
    Draws r xs r' ↔ xs = (rolls xs.length r).1 ∧ r' = skip xs.length r := by
  induction xs generalizing r with
  | nil =>
    constructor
    · intro h
      cases h
      exact ⟨rfl, rfl⟩
    · rintro ⟨-, rfl⟩
      exact .nil
  | cons x xs ih =>
    rw [List.length_cons, rolls_succ, List.cons.injEq]
    constructor
    · intro h
      cases h with
      | cons hdraw hrest =>
        obtain ⟨rfl, rfl⟩ := draw_iff.mp hdraw
        obtain ⟨hxs, hr⟩ := ih.mp hrest
        exact ⟨⟨rfl, hxs⟩, hr⟩
    · rintro ⟨⟨rfl, hxs⟩, hr⟩
      exact .cons (draw_iff.mpr ⟨rfl, rfl⟩) (ih.mpr ⟨hxs, hr⟩)

end RandomSource

end Arbor
