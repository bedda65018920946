import CssValues.Binary64.Whole
import CssValues.Proofs.Binary64.Monotone

/-!
# Whole numbers are exact

Whole numbers up to `2 ^ 53` are values, so rounding a value to a whole number, reading it as a
word and going back lose nothing. The difference of a value and the whole number nearest to it is a
value as well: either the value is below a half, and the whole number is zero, or the difference is
no larger than the value and a multiple of its last bit.
-/

namespace CssValues

namespace Binary64

/-! ## Values without a sign -/

/-- Without the sign, the units are the distance from zero. -/
theorem natAbs_signedUnits (x : Binary64) : x.signedUnits.natAbs = x.units := by
  rw [signedUnits]
  cases x.negative
  · exact Int.natAbs_natCast _
  · exact (Int.natAbs_neg _).trans (Int.natAbs_natCast _)

section Unsigned

variable {x y : Binary64} (hx : ¬ x.IsNaN) (hy : ¬ y.IsNaN) (hxsign : x.negative = false)
  (hysign : y.negative = false)

/-- A value without a sign is as many units from zero. -/
theorem signedUnits_of_negative_eq_false (h : x.negative = false) : x.signedUnits = x.units := by
  rw [signedUnits, h]
  rfl

/-- The number that a value without a sign stands for. -/
theorem toRat_of_negative_eq_false (h : x.negative = false) : x.toRat = x.units / unitsPerOne := by
  rw [toRat, signedUnits_of_negative_eq_false h, Int.cast_natCast]

include hx hy hxsign hysign

/-- Numbers without a sign are ordered as their units are. -/
theorem lt_iff_units_lt : x < y ↔ x.units < y.units := by
  rw [lt_iff, signedUnits_of_negative_eq_false hxsign, signedUnits_of_negative_eq_false hysign]
  simp only [hx, hy, not_false_eq_true, true_and, Int.ofNat_lt]

/-- Numbers without a sign are ordered as their units are. -/
theorem le_iff_units_le : x ≤ y ↔ x.units ≤ y.units := by
  rw [le_iff, signedUnits_of_negative_eq_false hxsign, signedUnits_of_negative_eq_false hysign]
  simp only [hx, hy, not_false_eq_true, true_and, Int.ofNat_le]

end Unsigned

/-- The larger of a number and one has the larger number of units. -/
theorem units_max_one {x : Binary64} (hx : ¬ x.IsNaN) (hsign : x.negative = false) :
    (max x 1).units = max x.units unitsPerOne := by
  have hlt := lt_iff_units_lt (y := 1) hx (not_isNaN_ofQuotient _ _ _) hsign rfl
  change (if x.IsNaN ∨ x < 1 then 1 else x).units = _
  rw [units_one] at hlt
  simp only [hx, false_or, hlt]
  split
  next hsmall => rw [units_one, max_eq_right hsmall.le]
  next hlarge => rw [max_eq_left (Nat.not_lt.mp hlarge)]

/-- The larger of a value and one is one of the two. -/
theorem max_one_cases (x : Binary64) : max x 1 = x ∨ max x 1 = 1 := by
  change (if x.IsNaN ∨ x < 1 then 1 else x) = x ∨ (if x.IsNaN ∨ x < 1 then 1 else x) = 1
  split
  · exact Or.inr rfl
  · exact Or.inl rfl

/-! ## Whole numbers -/

/-- One has a positive number of units. -/
theorem cast_unitsPerOne_pos : (0 : ℚ) < unitsPerOne := Nat.cast_pos.mpr unitsPerOne_pos

/-- The last whole number up to which all are exact is `2 ^ 53`. -/
theorem cast_maxExactNat : (maxExactNat : ℚ) = 2 ^ 53 := by norm_num [maxExactNat]

/-- Whole numbers up to `2 ^ 53` are representable. -/
theorem isRepresentable_mul_unitsPerOne {n : Nat} (hn : n ≤ maxExactNat) :
    IsRepresentable (n * unitsPerOne) := by
  rw [mul_unitsPerOne_eq]
  exact isRepresentable_shiftLeft hn (by decide)

/-- Whole numbers up to `2 ^ 53` are values. -/
theorem units_ofNat {n : Nat} (hn : n ≤ maxExactNat) : (ofNat n).units = n * unitsPerOne := by
  have hexact := (isRepresentable_mul_unitsPerOne hn).ofQuotient false Nat.one_pos
  rw [Nat.mul_one] at hexact
  exact hexact.2

/-- A whole number up to `2 ^ 53` is kept exactly. -/
theorem toRat_ofNat {n : Nat} (hn : n ≤ maxExactNat) : (ofNat n).toRat = n := by
  rw [toRat_of_negative_eq_false rfl, units_ofNat hn, Nat.cast_mul,
    mul_div_cancel_right₀ _ cast_unitsPerOne_pos.ne']

/-- Whole numbers up to `2 ^ 53` are values, below zero as well. -/
theorem toRat_ofInt {n : Int} (hn : n.natAbs ≤ maxExactNat) : (ofInt n).toRat = n := by
  have hunits : (ofInt n).units = n.natAbs * unitsPerOne := units_ofNat hn
  have hsigned : (ofInt n).signedUnits = n * unitsPerOne := by
    rw [signedUnits, hunits, Nat.cast_mul]
    change (if decide (n < 0) = true then _ else _) = _
    rcases lt_or_ge n 0 with hneg | hpos
    · rw [if_pos (decide_eq_true hneg), Int.ofNat_natAbs_of_nonpos hneg.le, Int.neg_mul,
        Int.neg_neg]
    · rw [if_neg (by simpa using hpos), Int.natAbs_of_nonneg hpos]
  rw [toRat, hsigned, Int.cast_mul, Int.cast_natCast,
    mul_div_cancel_right₀ _ cast_unitsPerOne_pos.ne']

/-- A whole number is not NaN. -/
theorem not_isNaN_ofNat (n : Nat) : ¬ (ofNat n).IsNaN := not_isNaN_ofQuotient _ _ _

/-- Values up to `2 ^ 53` are finite. -/
theorem isFinite_of_units_le {x : Binary64} (h : x.units ≤ maxExactNat * unitsPerOne) :
    x.IsFinite := by
  have hinfinity : maxExactNat * unitsPerOne < magnitudeUnits infinityMagnitude := by
    decide +kernel
  exact magnitudeUnits_strictMono.lt_iff_lt.mp (h.trans_lt hinfinity)

/-- The cutoff, in units. -/
theorem toRat_le_iff_units_le {x : Binary64} (hsign : x.negative = false) :
    x.toRat ≤ 2 ^ 53 ↔ x.units ≤ maxExactNat * unitsPerOne := by
  rw [toRat_of_negative_eq_false hsign, div_le_iff₀ cast_unitsPerOne_pos, ← cast_maxExactNat]
  exact_mod_cast Iff.rfl

/-! ## Rounding to whole numbers -/

/-- The nearest whole number is at most a half away. -/
theorem nearestWhole_error (u : Nat) :
    2 * (nearestWhole u * unitsPerOne) ≤ 2 * u + unitsPerOne ∧
      2 * u < 2 * (nearestWhole u * unitsPerOne) + unitsPerOne := by
  have hpos : 0 < 2 * unitsPerOne := Nat.mul_pos (by decide) unitsPerOne_pos
  have hdiv := Nat.div_add_mod' (2 * u + unitsPerOne) (2 * unitsPerOne)
  have hmod := Nat.mod_lt (2 * u + unitsPerOne) hpos
  rw [Nat.mul_left_comm] at hdiv
  rw [nearestWhole]
  constructor
  · omega
  · omega

/-- A whole number less than a half away is the nearest. -/
theorem nearestWhole_eq {u n : Nat} (hlow : 2 * (n * unitsPerOne) ≤ 2 * u + unitsPerOne)
    (hhigh : 2 * u < 2 * (n * unitsPerOne) + unitsPerOne) : nearestWhole u = n := by
  apply Nat.div_eq_of_lt_le
  · rw [Nat.mul_left_comm]
    exact hlow
  · rw [Nat.mul_left_comm, Nat.add_one_mul n]
    omega

/-- The whole number nearest to a whole number is that number. -/
theorem nearestWhole_mul (n : Nat) : nearestWhole (n * unitsPerOne) = n := by
  have hpos := unitsPerOne_pos
  exact nearestWhole_eq (by omega) (by omega)

/-- Up to `2 ^ 53`, rounding to a whole number stays there. -/
theorem nearestWhole_le {u : Nat} (h : u ≤ maxExactNat * unitsPerOne) :
    nearestWhole u ≤ maxExactNat := by
  have hpos := unitsPerOne_pos
  have herror := (nearestWhole_error u).1
  by_contra hgt
  have hscaled := Nat.mul_le_mul_right unitsPerOne (Nat.not_le.mp hgt)
  rw [Nat.succ_mul] at hscaled
  omega

/-- A number is at least as close to the nearest multiple of a step as it is to zero. -/
theorem natAbs_sub_mul_le {n whole step : Nat} (hbelow : 2 * (whole * step) ≤ 2 * n + step)
    (habove : 2 * n < 2 * (whole * step) + step) : ((n : Int) - whole * step).natAbs ≤ n := by
  rcases Nat.eq_zero_or_pos whole with hzero | hwhole
  · rw [hzero, Nat.cast_zero, zero_mul, sub_zero, Int.natAbs_natCast]
  · have hstep : step ≤ whole * step := Nat.le_mul_of_pos_left step hwhole
    zify at *
    rw [abs_le]
    constructor
    · linarith
    · linarith

section Round

variable {x : Binary64} (hx : x.IsFinite)

include hx

/-- A finite value is rounded to the nearest whole number of its sign. -/
theorem round_of_isFinite :
    x.round = ofQuotient x.negative (nearestWhole x.units * unitsPerOne) 1 := if_pos hx

/-- Rounding to a whole number keeps the sign. -/
theorem negative_round : x.round.negative = x.negative := by
  rw [round_of_isFinite hx, negative_ofQuotient]

/-- A value and the nearest whole number have a representable difference. -/
theorem isRepresentable_sub_nearestWhole :
    IsRepresentable ((x.units : Int) - nearestWhole x.units * unitsPerOne).natAbs := by
  obtain ⟨significand, shift, hunits, hlt, -, hshift⟩ := hx.exists_units_eq
  by_cases hwhole : 1074 ≤ shift
  · -- no bit of the value stands behind the point
    have hmul : x.units = significand <<< (shift - 1074) * unitsPerOne := by
      rw [mul_unitsPerOne_eq, ← Nat.shiftLeft_add, Nat.sub_add_cancel hwhole, hunits]
    rw [hmul, nearestWhole_mul, Nat.cast_mul, sub_self, Int.natAbs_zero]
    exact isRepresentable_shiftLeft (n := 0) (Nat.zero_le _) (Nat.zero_le 2044)
  · obtain ⟨hlow, hhigh⟩ := nearestWhole_error x.units
    generalize nearestWhole x.units = whole at *
    have hone : unitsPerOne = 2 ^ (1074 - shift) * 2 ^ shift := by
      rw [← Nat.pow_add, Nat.sub_add_cancel (Nat.le_of_not_le hwhole), unitsPerOne_eq,
        Nat.one_shiftLeft]
    rw [Nat.shiftLeft_eq] at hunits
    generalize 2 ^ (1074 - shift) = step at hone
    have hpos := Nat.two_pow_pos shift
    have hsplit : ((x.units : Int) - whole * unitsPerOne).natAbs =
        ((significand : Int) - whole * step).natAbs <<< shift := by
      rw [hunits, hone, Nat.shiftLeft_eq]
      push_cast
      rw [← mul_assoc, ← sub_mul, Int.natAbs_mul, Int.natAbs_pow]
      rfl
    have hbelow : 2 * (whole * step) ≤ 2 * significand + step := by
      refine Nat.le_of_mul_le_mul_right (?_ : _ * 2 ^ shift ≤ _ * 2 ^ shift) hpos
      rw [hunits, hone] at hlow
      linarith
    have habove : 2 * significand < 2 * (whole * step) + step := by
      refine Nat.lt_of_mul_lt_mul_right (a := 2 ^ shift) ?_
      rw [hunits, hone] at hhigh
      linarith
    rw [hsplit]
    exact isRepresentable_shiftLeft ((natAbs_sub_mul_le hbelow habove).trans hlt.le) (by omega)

variable (hle : x.units ≤ maxExactNat * unitsPerOne)

include hle

/-- The rounded value is finite, and exactly the nearest whole number. -/
theorem isFinite_and_units_round :
    x.round.IsFinite ∧ x.round.units = nearestWhole x.units * unitsPerOne := by
  have hexact := (isRepresentable_mul_unitsPerOne (nearestWhole_le hle)).ofQuotient x.negative
    Nat.one_pos
  rw [Nat.mul_one, ← round_of_isFinite hx] at hexact
  exact hexact

/-- Without a sign, the rounded value is the nearest whole number. -/
theorem signedUnits_round (hsign : x.negative = false) :
    x.round.signedUnits = nearestWhole x.units * unitsPerOne := by
  rw [signedUnits_of_negative_eq_false ((negative_round hx).trans hsign),
    (isFinite_and_units_round hx hle).2, Nat.cast_mul]

end Round

/-! ## Differences -/

/-- A representable difference is exact. -/
theorem isFinite_and_units_sub {x y : Binary64} (hx : x.IsFinite) (hy : y.IsFinite)
    (h : IsRepresentable (x.signedUnits - y.signedUnits).natAbs) :
    (x - y).IsFinite ∧ (x - y).units = (x.signedUnits - y.signedUnits).natAbs := by
  have hneg : (neg y).IsFinite := hy
  have htotal : x.signedUnits + (neg y).signedUnits = x.signedUnits - y.signedUnits := by
    rw [sub_eq_add_neg]
    exact congrArg (x.signedUnits + ·) (signedUnits_neg y)
  change (add x (neg y)).IsFinite ∧ (add x (neg y)).units = _
  unfold add
  simp only [hx.not_isNaN, hneg.not_isNaN, hx.not_isInfinite, hneg.not_isInfinite, or_self,
    if_false, htotal]
  split
  next hzero =>
    rw [hzero]
    exact ⟨(by decide : 0 < infinityMagnitude), units_eq_zero_iff.mpr rfl⟩
  next =>
    have hexact := h.ofQuotient (decide (x.signedUnits - y.signedUnits < 0)) Nat.one_pos
    rw [Nat.mul_one] at hexact
    exact hexact

/-! ## Words -/

/-- A whole number in the range of words is not changed by reading it as a word. -/
theorem toNat_toUInt64_of_units {x : Binary64} (hx : x.IsFinite) (hsign : x.negative = false)
    {n : Nat} (hunits : x.units = n * unitsPerOne) (hn : n ≤ maxWord) : x.toUInt64.toNat = n := by
  have hquotient : x.units / unitsPerOne = n := by
    rw [hunits, Nat.mul_div_cancel n unitsPerOne_pos]
  have hmin : Nat.min n maxWord = n := Nat.min_eq_left hn
  rw [toUInt64, if_neg (by simp [hx.not_isNaN, hsign]), hquotient, hmin, UInt64.toNat_ofNat',
    Nat.mod_eq_of_lt]
  exact Nat.lt_of_le_of_lt hn (by decide)

/-- Words up to `2 ^ 53` are values. -/
theorem toRat_ofUInt64 {n : UInt64} (hn : n.toNat ≤ maxExactNat) :
    (ofUInt64 n).toRat = n.toNat :=
  toRat_ofNat hn

end Binary64

end CssValues
