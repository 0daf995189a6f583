import Arbor.Proofs.Rounding

/-!
# Order of single-precision arithmetic

Rounding keeps the order, and so do the operations that round.  Infinities fit in,
and a result that is not a number is not less than another one.

* A larger summand gives no smaller sum (`rational_add_mono`).
* A larger factor gives no larger multiple of a number that is not positive
  (`rational_mul_anti`).
* What is not above a number has a difference from it that is not positive, and so
  is the quotient by a positive number (`rational_sub_nonpos`,
  `rational_div_nonpos`).

Together, a radius that goes down in equal steps never grows (`not_lt_of_steps`).
-/

namespace Arbor.Binary32

open Float.Model Float.Model.UnpackedFloat

/-! ## Infinities -/

theorem eq_positive {s : Sign} (h : -ceiling < signed s ceiling) : s = .positive := by
  cases s with
  | negative => exact absurd h (lt_irrefl _)
  | positive => rfl

theorem eq_negative {s : Sign} (h : signed s ceiling < ceiling) : s = .negative := by
  cases s with
  | negative => rfl
  | positive => exact absurd h (lt_irrefl _)

theorem eq_positive_of_value {s : Sign} {m : Nat} {e : Int} {hm : 0 < m}
    (h : 0 ≤ value (.finite s m e hm)) : s = .positive := by
  cases s with
  | negative => exact absurd h (not_le.mpr (neg_lt_zero.mpr (value_finite_pos hm)))
  | positive => rfl

theorem eq_negative_of_value {s : Sign} {m : Nat} {e : Int} {hm : 0 < m}
    (h : value (.finite s m e hm) ≤ 0) : s = .negative := by
  cases s with
  | negative => rfl
  | positive => exact absurd h (not_le.mpr (value_finite_pos hm))

theorem pos_cases {x : UnpackedFloat} (h : 0 < value x) :
    x = .infinity .positive ∨ ∃ m e hm, x = .finite .positive m e hm := by
  cases x with
  | infinity s =>
    cases eq_positive ((neg_lt_zero.mpr ceiling_pos).trans h)
    exact .inl rfl
  | notANumber => exact absurd h (lt_irrefl _)
  | zero s => exact absurd h (lt_irrefl _)
  | finite s m e hm =>
    cases eq_positive_of_value h.le
    exact .inr ⟨m, e, hm, rfl⟩

theorem rational_infinity (s : Sign) :
    rational (.ofModel (.pack (.infinity s))) = signed s ceiling := by
  rw [rational, unpacked_ofModel_pack (by exact trivial)]
  rfl

theorem rational_mem (x : Float32) : -ceiling ≤ rational x ∧ rational x ≤ ceiling :=
  value_mem_Icc (inRange_unpacked x)

theorem clamp_mem (q : ℚ) : -ceiling ≤ clamp q ∧ clamp q ≤ ceiling := by
  have hceiling := ceiling_pos
  exact ⟨le_max_left .., max_le (by linarith) (min_le_right ..)⟩

theorem isNaN_unpack_pack {x : UnpackedFloat} (h : x.isNaN = true) :
    ¬ IsNumber (.ofModel (.pack x)) := by
  cases x with
  | notANumber =>
    rw [IsNumber, unpacked_ofModel_pack (by exact trivial)]
    exact Bool.noConfusion
  | _ => cases h

theorem rational_of_not_isNumber {x : Float32} (h : ¬ IsNumber x) : rational x = 0 := by
  rw [IsNumber] at h
  rw [rational]
  cases hx : unpacked x with
  | notANumber => rfl
  | _ => rw [hx] at h; exact absurd rfl h

/-! ## Sums -/

/-- A sum is infinite with a summand, or both are finite. -/
theorem add_cases {x y : UnpackedFloat} (h : (UnpackedFloat.add .binary32 x y).isNaN = false) :
    (∃ s, x = .infinity s ∧ UnpackedFloat.add .binary32 x y = .infinity s) ∨
      x.isFinite = true ∧
        ((∃ s, y = .infinity s ∧ UnpackedFloat.add .binary32 x y = .infinity s) ∨
          y.isFinite = true) := by
  cases x with
  | notANumber => cases h
  | infinity s =>
    cases y with
    | notANumber => cases h
    | infinity t =>
      cases s <;> cases t <;> first
        | exact .inl ⟨_, rfl, rfl⟩
        | cases h
    | zero t => exact .inl ⟨s, rfl, rfl⟩
    | finite t n f hn => exact .inl ⟨s, rfl, rfl⟩
  | zero s =>
    cases y with
    | notANumber => cases h
    | infinity t => exact .inr ⟨rfl, .inl ⟨t, rfl, rfl⟩⟩
    | zero t => exact .inr ⟨rfl, .inr rfl⟩
    | finite t n f hn => exact .inr ⟨rfl, .inr rfl⟩
  | finite s m e hm =>
    cases y with
    | notANumber => cases h
    | infinity t => exact .inr ⟨rfl, .inl ⟨t, rfl, rfl⟩⟩
    | zero t => exact .inr ⟨rfl, .inr rfl⟩
    | finite t n f hn => exact .inr ⟨rfl, .inr rfl⟩

theorem add_eq (x y : Float32) :
    x + y = .ofModel (.pack (UnpackedFloat.add .binary32 (unpacked x) (unpacked y))) := rfl

theorem isNaN_of_isNumber {x : UnpackedFloat} (h : IsNumber (.ofModel (.pack x))) :
    x.isNaN = false :=
  Bool.eq_false_iff.mpr fun hx => isNaN_unpack_pack hx h

theorem rational_add_cases {x y : Float32} (h : IsNumber (x + y)) :
    (∃ s, unpacked x = .infinity s ∧ rational (x + y) = signed s ceiling) ∨
      (unpacked x).isFinite = true ∧
        ((∃ s, unpacked y = .infinity s ∧ rational (x + y) = signed s ceiling) ∨
          (unpacked y).isFinite = true ∧
            rational (x + y) = clamp (nearest (rational x + rational y))) := by
  rw [add_eq] at h ⊢
  rcases add_cases (isNaN_of_isNumber h) with ⟨s, hx, hsum⟩ | ⟨hx, ⟨s, hy, hsum⟩ | hy⟩
  · rw [hsum]
    exact .inl ⟨s, hx, rational_infinity s⟩
  · rw [hsum]
    exact .inr ⟨hx, .inl ⟨s, hy, rational_infinity s⟩⟩
  · have hsum := isNearest_add (inRange_unpacked x).onGrid (inRange_unpacked y).onGrid hx hy
    exact .inr ⟨hx, .inr ⟨hy, hsum.rational_eq⟩⟩

theorem rational_of_infinity {x : Float32} {s : Sign} (h : unpacked x = .infinity s) :
    rational x = signed s ceiling := by
  rw [rational, h]
  rfl

theorem rational_mem_of_finite {x : Float32} (h : (unpacked x).isFinite = true) :
    -ceiling < rational x ∧ rational x < ceiling :=
  value_mem_Ioo (inRange_unpacked x) h

theorem not_isFinite_infinity {x : UnpackedFloat} {s : Sign} (h : x = .infinity s) :
    ¬ x.isFinite = true := by
  rw [h]
  exact Bool.noConfusion

/-- A larger summand gives no smaller sum. -/
theorem rational_add_mono {b x y : Float32} (hx : IsNumber (b + x)) (hy : IsNumber (b + y))
    (h : rational x ≤ rational y) : rational (b + x) ≤ rational (b + y) := by
  rcases rational_add_cases hx with ⟨s, hb, hsum⟩ | ⟨hb, hx⟩
  · rcases rational_add_cases hy with ⟨t, hb', hsum'⟩ | ⟨hb', -⟩
    · cases hb.symm.trans hb'
      rw [hsum, hsum']
    · exact absurd hb' (not_isFinite_infinity hb)
  rcases rational_add_cases hy with ⟨t, hb', -⟩ | ⟨-, hy⟩
  · exact absurd hb (not_isFinite_infinity hb')
  rcases hx with ⟨s, hx, hsum⟩ | ⟨hx, hsum⟩
  · rcases hy with ⟨t, hy, hsum'⟩ | ⟨hy, hsum'⟩
    · rwa [hsum, hsum', ← rational_of_infinity hx, ← rational_of_infinity hy]
    · -- What is below a finite number is the negative infinity.
      rw [rational_of_infinity hx] at h
      rw [hsum, hsum', eq_negative (h.trans_lt (rational_mem_of_finite hy).2)]
      exact (clamp_mem _).1
  · rcases hy with ⟨t, hy, hsum'⟩ | ⟨hy, hsum'⟩
    · rw [rational_of_infinity hy] at h
      rw [hsum, hsum', eq_positive ((rational_mem_of_finite hx).1.trans_le h)]
      exact (clamp_mem _).2
    · rw [hsum, hsum']
      exact clamp_mono (nearest_mono (by linarith))

/-! ## Differences -/

theorem unpacked_neg (x : Float32) : unpacked (-x) = (unpacked x).neg := by
  show unpacked (.ofModel (.pack (unpacked x).neg)) = _
  have hx := inRange_unpacked x
  cases h : unpacked x with
  | finite s m e hm =>
    rw [h] at hx
    rw [unpacked_ofModel_pack (by exact hx.1), UnpackedFloat.neg, overflow]
    exact if_neg (by have := hx.2; omega)
  | _ => rw [unpacked_ofModel_pack (by exact trivial)]; rfl

theorem sub_eq_add (x y : Float32) : x - y = x + -y := by
  rw [add_eq, unpacked_neg, ← sub_eq_add_neg]
  rfl

theorem rational_neg (x : Float32) : rational (-x) = -rational x := by
  rw [rational, unpacked_neg, value_neg]
  rfl

theorem eq_infinity_of_le {x : Float32} (h : ceiling ≤ rational x) :
    unpacked x = .infinity .positive := by
  rcases pos_cases (ceiling_pos.trans_le h) with hx | ⟨m, e, hm, hx⟩
  · exact hx
  · have hlt := (rational_mem_of_finite (by rw [hx]; rfl)).2
    exact absurd hlt (not_lt.mpr h)

theorem clamp_nearest_zero : clamp (nearest 0) = 0 := by
  have hceiling := ceiling_pos
  rw [nearest_zero, clamp_of_mem (by linarith) (by linarith)]

/-- What is not above a number has no positive difference from it. -/
theorem rational_sub_nonpos {x y : Float32} (h : x ≤ y) : rational (x - y) ≤ 0 := by
  obtain ⟨hx, hy, hle⟩ := rational_le_of_le h
  by_cases hnumber : IsNumber (x - y)
  · rw [sub_eq_add] at hnumber ⊢
    rcases rational_add_cases hnumber with ⟨s, hx, hsum⟩ | ⟨hx, hy⟩
    · rw [hsum]
      cases s with
      | negative => exact neg_nonpos.mpr ceiling_pos.le
      | positive =>
        -- Both are the positive infinity, which has no difference from itself.
        rw [rational_of_infinity hx] at hle
        rw [add_eq, hx, unpacked_neg, eq_infinity_of_le hle] at hnumber
        exact absurd hnumber (isNaN_unpack_pack rfl)
    · rcases hy with ⟨s, hy, hsum⟩ | ⟨-, hsum⟩
      · have hneg := rational_of_infinity hy
        have hx := (rational_mem_of_finite hx).1
        rw [rational_neg] at hneg
        rw [hsum, eq_negative (by linarith : signed s ceiling < ceiling)]
        exact neg_nonpos.mpr ceiling_pos.le
      · rw [hsum, rational_neg, ← clamp_nearest_zero]
        exact clamp_mono (nearest_mono (by linarith))
  · exact (rational_of_not_isNumber hnumber).le

/-! ## Quotients -/

theorem value_ofFields_negative (e : BitVec 8) (m : BitVec 23) :
    value (ofFields .negative e m) ≤ 0 := by
  rw [ofFields]
  split_ifs
  · exact neg_nonpos.mpr ceiling_pos.le
  · exact le_rfl
  · exact le_rfl
  · exact neg_nonpos.mpr (by positivity)
  · exact neg_nonpos.mpr (by positivity)

/-- The sign of a negative number survives packing, on the grid or not. -/
theorem rational_pack_negative {m : Nat} {e : Int} (hm : 0 < m) :
    rational (.ofModel (.pack (.finite .negative m e hm))) ≤ 0 := by
  show value (UnpackedFloat.unpack .binary32 (UnpackedFloat.pack .binary32 _)) ≤ 0
  rw [UnpackedFloat.pack]
  dsimp only
  split_ifs
  · rw [packedInfinity, unpack_packComponents]
    exact value_ofFields_negative ..
  · rw [unpack_packComponents]
    exact value_ofFields_negative ..
  · rw [unpack_packComponents]
    exact value_ofFields_negative ..

theorem rational_pack_zero (s : Sign) : rational (.ofModel (.pack (.zero s))) = 0 := by
  rw [rational, unpacked_ofModel_pack (by exact trivial)]
  rfl

theorem rational_roundWithAccuracy_negative (m : Nat) (e : Int) (a : Accuracy) :
    rational (.ofModel (.pack (roundWithAccuracy .binary32 .negative m e a))) ≤ 0 := by
  simp only [roundWithAccuracy]
  split_ifs
  · exact (rational_pack_zero _).le
  · exact rational_pack_negative _

theorem div_eq (x y : Float32) :
    x / y = .ofModel (.pack (UnpackedFloat.div .binary32 (unpacked x) (unpacked y))) := rfl

theorem rational_pack_nonpos_of_isNaN {x : UnpackedFloat} (h : x.isNaN = true) :
    rational (.ofModel (.pack x)) ≤ 0 :=
  (rational_of_not_isNumber (isNaN_unpack_pack h)).le

/-- The quotient by a positive number has no other sign. -/
theorem rational_div_nonpos {x y : Float32} (hx : rational x ≤ 0) (hy : 0 < rational y) :
    rational (x / y) ≤ 0 := by
  have hceiling := ceiling_pos
  rw [rational] at hx
  rw [div_eq]
  cases h : unpacked x with
  | notANumber => exact rational_pack_nonpos_of_isNaN rfl
  | infinity s =>
    rw [h] at hx
    cases eq_negative (hx.trans_lt hceiling)
    rcases pos_cases hy with hy | ⟨n, f, hn, hy⟩
    · rw [hy]
      exact rational_pack_nonpos_of_isNaN rfl
    · rw [hy]
      exact (rational_infinity .negative).trans_le (neg_nonpos.mpr hceiling.le)
  | zero s =>
    rcases pos_cases hy with hy | ⟨n, f, hn, hy⟩
    · rw [hy]
      exact (rational_pack_zero _).le
    · rw [hy]
      exact (rational_pack_zero _).le
  | finite s m e hm =>
    rw [h] at hx
    cases eq_negative_of_value hx
    rcases pos_cases hy with hy | ⟨n, f, hn, hy⟩
    · rw [hy]
      exact (rational_pack_zero _).le
    · rw [hy]
      exact rational_roundWithAccuracy_negative ..

/-! ## Products -/

theorem isNaN_of_mul {x y : UnpackedFloat}
    (h : (UnpackedFloat.mul .binary32 x y).isNaN = false) : x.isNaN = false ∧ y.isNaN = false := by
  cases x with
  | notANumber => cases h
  | _ =>
    cases y with
    | notANumber => cases h
    | _ => exact ⟨rfl, rfl⟩

/-- A product of a number that is not negative and one that is not positive is the
negative infinity, or both are finite. -/
theorem rational_mul_cases {x s : Float32} (hx : 0 ≤ rational x) (hs : rational s ≤ 0)
    (h : IsNumber (x * s)) :
    (¬ (unpacked s).isFinite = true ∧ rational (x * s) = -ceiling) ∨
      (rational x = ceiling ∧ rational (x * s) = -ceiling) ∨
        (unpacked x).isFinite = true ∧ (unpacked s).isFinite = true ∧
          rational (x * s) = clamp (nearest (rational x * rational s)) := by
  have hceiling := ceiling_pos
  rw [mul_eq] at h ⊢
  have hnumber := isNaN_of_isNumber h
  obtain ⟨hnx, hns⟩ := isNaN_of_mul hnumber
  by_cases hfs : (unpacked s).isFinite = true
  · by_cases hfx : (unpacked x).isFinite = true
    · have hproduct := isNearest_mul (inRange_unpacked x).onGrid (inRange_unpacked s).onGrid hfx hfs
      exact .inr (.inr ⟨hfx, hfs, hproduct.rational_eq⟩)
    · obtain ⟨p, hp⟩ := exists_infinity hnx hfx
      have hinfinite := rational_of_infinity hp
      rw [hinfinite] at hx
      cases eq_positive ((neg_lt_zero.mpr hceiling).trans_le hx)
      refine .inr (.inl ⟨hinfinite, ?_⟩)
      rw [hp] at hnumber ⊢
      rw [rational] at hs
      cases hs' : unpacked s with
      | infinity t => exact absurd hfs (not_isFinite_infinity hs')
      | notANumber =>
        rw [hs'] at hns
        cases hns
      | zero t =>
        rw [hs'] at hnumber
        cases hnumber
      | finite t n f hn =>
        rw [hs'] at hs
        cases eq_negative_of_value hs
        exact rational_infinity .negative
  · obtain ⟨t, ht⟩ := exists_infinity hns hfs
    rw [rational_of_infinity ht] at hs
    cases eq_negative (hs.trans_lt hceiling)
    refine .inl ⟨hfs, ?_⟩
    rw [ht] at hnumber ⊢
    rw [rational] at hx
    cases hx' : unpacked x with
    | infinity p =>
      rw [hx'] at hx
      cases eq_positive ((neg_lt_zero.mpr hceiling).trans_le hx)
      exact rational_infinity .negative
    | notANumber =>
      rw [hx'] at hnx
      cases hnx
    | zero p =>
      rw [hx'] at hnumber
      cases hnumber
    | finite p m e hm =>
      rw [hx'] at hx
      cases eq_positive_of_value hx
      exact rational_infinity .negative

/-- A larger factor gives no larger multiple of a number that is not positive. -/
theorem rational_mul_anti {x y s : Float32} (hx : 0 ≤ rational x) (hs : rational s ≤ 0)
    (hnx : IsNumber (x * s)) (hny : IsNumber (y * s)) (h : rational x ≤ rational y) :
    rational (y * s) ≤ rational (x * s) := by
  rcases rational_mul_cases (hx.trans h) hs hny with ⟨-, hy⟩ | ⟨-, hy⟩ | ⟨hy, hfinite, hproduct⟩
  · rw [hy]
    exact (rational_mem _).1
  · rw [hy]
    exact (rational_mem _).1
  · rcases rational_mul_cases hx hs hnx with ⟨hinfinite, -⟩ | ⟨hceiling, -⟩ | ⟨-, -, hproduct'⟩
    · exact absurd hfinite hinfinite
    · have hlt := (rational_mem_of_finite hy).2
      exact absurd hlt (not_lt.mpr (hceiling.symm.trans_le h))
    · rw [hproduct, hproduct']
      exact clamp_mono (nearest_mono (mul_le_mul_of_nonpos_right h hs))

/-! ## Equal steps -/

theorem isNumber_of_add {x y : Float32} (h : IsNumber (x + y)) : IsNumber y := by
  rw [add_eq] at h
  have hsum := isNaN_of_isNumber h
  cases hy : unpacked y with
  | notANumber =>
    rw [hy] at hsum
    cases hx : unpacked x <;> (rw [hx] at hsum; cases hsum)
  | _ => rw [IsNumber, hy]; rfl

theorem rational_ofNat_mono {m n : Nat} (h : m ≤ n) :
    rational (.ofNat m) ≤ rational (.ofNat n) := by
  rw [(rational_ofNat m).2, (rational_ofNat n).2]
  exact clamp_mono (nearest_mono (by exact_mod_cast h))

theorem rational_ofNat_nonneg (n : Nat) : 0 ≤ rational (.ofNat n) := by
  rw [(rational_ofNat n).2, ← clamp_nearest_zero]
  exact clamp_mono (nearest_mono (by positivity))

theorem rational_ofNat_pos {n : Nat} (h : 0 < n) : 0 < rational (.ofNat n) := by
  have hone : rational (.ofNat 1) = 1 := by
    rw [(rational_ofNat 1).2, Nat.cast_one, nearest_one, clamp_one]
  have hle := rational_ofNat_mono h
  rw [Nat.succ_eq_add_one, zero_add, hone] at hle
  linarith

/-- A radius that goes down in equal steps never grows. -/
theorem not_lt_of_steps {base tip : Float32} (h : tip ≤ base) {length : Nat} (hlength : 0 < length)
    {m n : Nat} (hmn : m ≤ n) :
    let step := (tip - base) / Float32.ofNat length
    ¬ base + Float32.ofNat m * step < base + Float32.ofNat n * step := by
  intro step hlt
  have hstep : rational step ≤ 0 :=
    rational_div_nonpos (rational_sub_nonpos h) (rational_ofNat_pos hlength)
  obtain ⟨hm, hn, hlt⟩ := lt_iff.mp hlt
  have hle := rational_mul_anti (rational_ofNat_nonneg m) hstep (isNumber_of_add hm)
    (isNumber_of_add hn) (rational_ofNat_mono hmn)
  exact absurd hlt (not_lt.mpr (rational_add_mono hn hm hle))

end Arbor.Binary32
