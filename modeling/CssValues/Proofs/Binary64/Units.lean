import CssValues.Binary64.Rounding
import Mathlib.Tactic.Ring

/-!
# Magnitudes and their units

A magnitude is some binades and a number of at most 53 bits, and its units are that number, shifted.
They round to that magnitude, whatever they are counted in. So different magnitudes up to infinity
have different numbers of units, and two values that are not NaN are equal exactly when their words
are, the sign of zero apart.
-/

namespace CssValues

namespace Binary64

/-! ## Kinds of values -/

/-- A finite value is not NaN. -/
theorem IsFinite.not_isNaN {x : Binary64} (h : x.IsFinite) : ¬ x.IsNaN := Nat.lt_asymm h

/-- An infinity is not NaN. -/
theorem IsInfinite.not_isNaN {x : Binary64} (h : x.IsInfinite) : ¬ x.IsNaN :=
  fun hnan => Nat.ne_of_gt hnan h

/-- A finite value is no infinity. -/
theorem IsFinite.not_isInfinite {x : Binary64} (h : x.IsFinite) : ¬ x.IsInfinite := Nat.ne_of_lt h

/-- A value that is not NaN is finite or infinite. -/
theorem isFinite_or_isInfinite {x : Binary64} (h : ¬ x.IsNaN) : x.IsFinite ∨ x.IsInfinite :=
  Nat.lt_or_eq_of_le (Nat.not_lt.mp h)

/-! ## Rounding of whole units -/

/-- Shifting keeps a positive number positive. -/
theorem shiftLeft_pos {n : Nat} (hn : 0 < n) (shift : Nat) : 0 < n <<< shift := by
  rw [Nat.shiftLeft_eq]
  exact Nat.mul_pos hn (Nat.two_pow_pos shift)

/-- A multiple of the divisor has an exact quotient. -/
theorem roundHalfEven_mul {den : Nat} (hden : 0 < den) (n : Nat) :
    roundHalfEven (n * den) den = n := by
  simp only [roundHalfEven, Nat.mul_mod_left, Nat.mul_div_cancel n hden, Nat.mul_zero, hden,
    if_true]

/-- The surplus of a quotient is known from the binade that it lies in. -/
theorem surplusBits_eq {num den shift : Nat} (hden : 0 < den)
    (hlow : shift = 0 ∨ binadeSize * (den <<< shift) ≤ num)
    (hhigh : num < 2 * binadeSize * (den <<< shift)) : surplusBits num den = shift := by
  have hbinade : binadeSize = 2 ^ 52 := rfl
  have htwo : 2 * binadeSize = 2 ^ 53 := rfl
  have hquotient : num / den < 2 ^ (53 + shift) := by
    rw [Nat.div_lt_iff_lt_mul hden, Nat.pow_add, Nat.mul_assoc, Nat.mul_comm _ den, ← htwo,
      ← Nat.shiftLeft_eq]
    exact hhigh
  rw [surplusBits]
  by_cases hzero : num / den = 0
  · have hnum : num < den := Nat.lt_of_div_eq_zero hden hzero
    rcases hlow with rfl | hlow
    · rw [hzero]
      rfl
    · have hstep : den ≤ binadeSize * (den <<< shift) := by
        rw [Nat.shiftLeft_eq, Nat.mul_left_comm]
        exact Nat.le_mul_of_pos_right den (Nat.mul_pos (by decide) (Nat.two_pow_pos shift))
      exact absurd (hstep.trans hlow) (Nat.not_le.mpr hnum)
  · have hlog := (Nat.log2_lt hzero).mpr hquotient
    rcases hlow with rfl | hlow
    · omega
    · have hpow : 2 ^ (52 + shift) ≤ num / den := by
        rw [Nat.le_div_iff_mul_le hden, Nat.pow_add, Nat.mul_assoc, Nat.mul_comm _ den, ← hbinade,
          ← Nat.shiftLeft_eq]
        exact hlow
      have := (Nat.le_log2 hzero).mpr hpow
      omega

/-- A quotient in a known binade is rounded to a multiple of the last bit of that binade. -/
theorem nearestMagnitude_of_binade {num den : Nat} (shift : Nat) (hden : 0 < den)
    (hlow : shift = 0 ∨ binadeSize * (den <<< shift) ≤ num)
    (hhigh : num < 2 * binadeSize * (den <<< shift)) :
    nearestMagnitude num den =
      Nat.min (shift * binadeSize + roundHalfEven num (den <<< shift)) infinityMagnitude := by
  rw [nearestMagnitude, surplusBits_eq hden hlow hhigh]

/-! ## Binades -/

/-- Every magnitude is some binades and a number of at most 53 bits. -/
theorem exists_eq_surplus_add (magnitude : Nat) :
    ∃ surplus rest, magnitude = surplus * binadeSize + rest ∧ rest < 2 * binadeSize ∧
      (surplus = 0 ∨ binadeSize ≤ rest) := by
  have hdiv := Nat.div_add_mod' magnitude binadeSize
  have hmod : magnitude % binadeSize < binadeSize := Nat.mod_lt _ (by decide)
  cases hbinade : magnitude / binadeSize with
  | zero =>
    rw [hbinade] at hdiv
    exact ⟨0, magnitude % binadeSize, hdiv.symm, by omega, Or.inl rfl⟩
  | succ surplus =>
    rw [hbinade, Nat.succ_mul, Nat.add_assoc] at hdiv
    exact ⟨surplus, _, hdiv.symm, by omega, Or.inr (Nat.le_add_right _ _)⟩

/-- The units of a magnitude that is given by its binades and a rounded number of 53 bits, which
may have been rounded up to the next binade. -/
theorem magnitudeUnits_add {surplus rounded : Nat} (hle : rounded ≤ 2 * binadeSize)
    (hlow : surplus = 0 ∨ binadeSize ≤ rounded) :
    magnitudeUnits (surplus * binadeSize + rounded) = rounded <<< surplus := by
  have hpos : 0 < binadeSize := by decide
  by_cases hfraction : rounded < binadeSize
  · have hzero : surplus = 0 := hlow.resolve_right (Nat.not_le.mpr hfraction)
    rw [hzero, Nat.zero_mul, Nat.zero_add, Nat.shiftLeft_zero]
    exact if_pos (Nat.div_eq_of_lt hfraction)
  · obtain ⟨fraction, rfl⟩ := Nat.exists_eq_add_of_le (Nat.not_lt.mp hfraction)
    have hsplit : surplus * binadeSize + (binadeSize + fraction) =
        fraction + binadeSize * (surplus + 1) := by ring
    have hdiv : (surplus * binadeSize + (binadeSize + fraction)) / binadeSize =
        fraction / binadeSize + surplus + 1 := by
      rw [hsplit, Nat.add_mul_div_left _ _ hpos, ← Nat.add_assoc]
    have hmod : (surplus * binadeSize + (binadeSize + fraction)) % binadeSize =
        fraction % binadeSize := by
      rw [hsplit, Nat.add_mul_mod_self_left]
    rw [magnitudeUnits, hdiv, hmod, if_neg (Nat.succ_ne_zero _), Nat.add_sub_cancel]
    rcases Nat.lt_or_eq_of_le (Nat.le_of_add_le_add_left
      (hle.trans_eq (Nat.two_mul binadeSize))) with hlt | heq
    · rw [Nat.mod_eq_of_lt hlt, Nat.div_eq_of_lt hlt, Nat.zero_add]
    · rw [heq, Nat.mod_self, Nat.div_self hpos, Nat.add_zero, Nat.shiftLeft_eq, Nat.shiftLeft_eq]
      ring

/-- A magnitude is what its number of units rounds to. -/
theorem nearestMagnitude_magnitudeUnits {magnitude den : Nat} (hden : 0 < den)
    (hmagnitude : magnitude ≤ infinityMagnitude) :
    nearestMagnitude (magnitudeUnits magnitude * den) den = magnitude := by
  obtain ⟨shift, significand, rfl, hlt, hlow⟩ := exists_eq_surplus_add magnitude
  have hpos : 0 < den <<< shift := shiftLeft_pos hden _
  have hscale : significand <<< shift * den = significand * (den <<< shift) := by
    simp only [Nat.shiftLeft_eq, Nat.mul_assoc, Nat.mul_comm den]
  rw [magnitudeUnits_add hlt.le hlow, hscale, nearestMagnitude_of_binade shift hden
    (hlow.imp_right (Nat.mul_le_mul_right _)) (Nat.mul_lt_mul_of_pos_right hlt hpos),
    roundHalfEven_mul hpos]
  exact Nat.min_eq_left hmagnitude

/-- Magnitudes with the same number of units are the same. -/
theorem magnitudeUnits_inj {m n : Nat} (hm : m ≤ infinityMagnitude) (hn : n ≤ infinityMagnitude)
    (h : magnitudeUnits m = magnitudeUnits n) : m = n := by
  rw [← nearestMagnitude_magnitudeUnits Nat.one_pos hm, h,
    nearestMagnitude_magnitudeUnits Nat.one_pos hn]

/-! ## Equality -/

/-- Equality of values does not depend on the order. -/
theorem beq_comm {x y : Binary64} : (x == y) = (y == x) := by
  rw [Bool.eq_iff_iff, beq_iff, beq_iff]
  constructor
  · intro h
    exact ⟨h.2.1, h.1, h.2.2.symm⟩
  · intro h
    exact ⟨h.2.1, h.1, h.2.2.symm⟩

/-- Values that are equal to a third one are equal; NaN is equal to none. -/
theorem beq_trans {x y z : Binary64} (hxy : (x == y) = true) (hyz : (y == z) = true) :
    (x == z) = true := by
  rw [beq_iff] at hxy hyz ⊢
  exact ⟨hxy.1, hyz.2.1, hxy.2.2.trans hyz.2.2⟩

/-- Values that are not NaN are equal exactly when their words are the same, or both are zero. -/
theorem beq_iff_magnitude {x y : Binary64} (hx : ¬ x.IsNaN) (hy : ¬ y.IsNaN) :
    (x == y) = true ↔ x.magnitude = y.magnitude ∧ (x.negative = y.negative ∨ x.IsZero) := by
  have hzero : x.units = 0 ↔ x.IsZero := units_eq_zero_iff
  rw [beq_iff]
  constructor
  · intro h
    have hsigned := h.2.2
    have hunits : x.units = y.units := by
      have habs := congrArg Int.natAbs hsigned
      unfold signedUnits at habs
      split at habs <;> split at habs <;> omega
    refine ⟨magnitudeUnits_inj (Nat.not_lt.mp hx) (Nat.not_lt.mp hy) hunits, ?_⟩
    by_cases hsign : x.negative = y.negative
    · exact Or.inl hsign
    · refine Or.inr (hzero.mp ?_)
      have hflip : y.negative = !x.negative := by
        cases hleft : x.negative <;> cases hright : y.negative <;> simp_all
      unfold signedUnits at hsigned
      rw [hflip] at hsigned
      cases hleft : x.negative <;>
        simp only [hleft, Bool.not_true, Bool.not_false, if_true, if_false,
          Bool.false_eq_true] at hsigned <;> omega
  · intro h
    obtain ⟨hmagnitude, hsign⟩ := h
    have hunits : x.units = y.units := congrArg magnitudeUnits hmagnitude
    refine ⟨hx, hy, ?_⟩
    unfold signedUnits
    rcases hsign with hnegative | hx0
    · rw [hnegative, hunits]
    · rw [← hunits, hzero.mpr hx0]
      simp

/-- Infinite values are equal exactly when they have the same sign. -/
theorem beq_iff_of_isInfinite {x y : Binary64} (hx : x.IsInfinite) (hy : y.IsInfinite) :
    (x == y) = true ↔ x.negative = y.negative := by
  have hzero : ¬ x.IsZero := fun hzero => absurd (hx.symm.trans hzero) (by decide)
  rw [beq_iff_magnitude hx.not_isNaN hy.not_isNaN]
  simp only [hzero, or_false, and_iff_right_iff_imp]
  intro _
  exact hx.trans hy.symm

/-- Finite and infinite values are not equal. -/
theorem beq_eq_false_of_isInfinite {x y : Binary64} (hx : x.IsFinite) (hy : y.IsInfinite) :
    (x == y) = false := by
  rw [← Bool.not_eq_true, beq_iff_magnitude hx.not_isNaN hy.not_isNaN]
  intro h
  exact hx.not_isInfinite (h.1.trans hy)

end Binary64

end CssValues
