import CssValues.Binary64.Arithmetic
import CssValues.Proofs.Binary64.Units
import Mathlib.Algebra.Order.Field.Basic
import Mathlib.Algebra.Order.Ring.Abs
import Mathlib.Algebra.Order.Ring.Pow
import Mathlib.Data.Rat.Cast.Order
import Mathlib.Tactic.Linarith
import Mathlib.Tactic.Ring

/-!
# Relative errors

A rounded quotient differs from the exact one by at most half of the step between its neighbours.
From the smallest normal number upwards that is a relative error of at most `2 ^ -53`, one unit
roundoff. Just below the smallest normal number a quotient may still round up to it, and then the
error is half of a unit and no more.

The errors of several operations multiply: `IsWithin k x y` says that `x` may come from `y` by `k`
roundings.
-/

namespace CssValues

namespace Binary64

/-! ## Errors of rounding -/

/-- Rounding to a natural number moves a quotient by at most a half. -/
theorem roundHalfEven_error (num : Nat) {den : Nat} (hden : 0 < den) :
    2 * (roundHalfEven num den * den) ≤ 2 * num + den ∧
      2 * num ≤ 2 * (roundHalfEven num den * den) + den := by
  have hdiv := Nat.div_add_mod' num den
  have hmod := Nat.mod_lt num hden
  simp only [roundHalfEven]
  split
  · omega
  · split
    · rw [Nat.add_mul]
      omega
    · rcases Nat.mod_two_eq_zero_or_one (num / den) with heven | hodd
      · rw [heven, Nat.add_zero]
        omega
      · rw [hodd, Nat.add_mul]
        omega

/-- The divisor that leaves 53 bits leaves as many bits. -/
theorem binadeSize_mul_le {num den : Nat} (hden : 0 < den) (h : binadeSize * den ≤ num) :
    binadeSize * (den <<< surplusBits num den) ≤ num := by
  have hquotient : binadeSize ≤ num / den := (Nat.le_div_iff_mul_le hden).mpr h
  have hne : num / den ≠ 0 := Nat.ne_of_gt (Nat.lt_of_lt_of_le (by decide) hquotient)
  have hlog : 52 ≤ (num / den).log2 := (Nat.le_log2 hne).mpr hquotient
  have hsplit : (num / den).log2 = 52 + surplusBits num den := by
    rw [surplusBits]
    omega
  have hpow := Nat.log2_self_le hne
  rw [hsplit, Nat.pow_add, Nat.le_div_iff_mul_le hden] at hpow
  rw [Nat.shiftLeft_eq, Nat.mul_comm den, ← Nat.mul_assoc]
  exact hpow

/-- Below the smallest normal number no bits are dropped. -/
theorem surplusBits_eq_zero {num den : Nat} (hden : 0 < den) (h : num < binadeSize * den) :
    surplusBits num den = 0 := by
  apply surplusBits_eq hden (Or.inl rfl)
  rw [Nat.shiftLeft_zero, Nat.mul_assoc, Nat.two_mul]
  exact Nat.lt_add_right _ h

/-- The units of a finite rounded quotient: 53 bits of it, rounded, with zeros for the others. -/
theorem magnitudeUnits_nearestMagnitude {num den : Nat} (hden : 0 < den)
    (hfinite : nearestMagnitude num den < infinityMagnitude) :
    magnitudeUnits (nearestMagnitude num den) =
      roundHalfEven num (den <<< surplusBits num den) <<< surplusBits num den := by
  have hshift : 0 < den <<< surplusBits num den := shiftLeft_pos hden _
  have hhigh : roundHalfEven num (den <<< surplusBits num den) ≤ 2 * binadeSize :=
    (roundHalfEven_le _ _).trans (div_surplus_lt num den)
  have hlow : surplusBits num den = 0 ∨
      binadeSize ≤ roundHalfEven num (den <<< surplusBits num den) := by
    by_cases hnormal : binadeSize * den ≤ num
    · exact Or.inr (((Nat.le_div_iff_mul_le hshift).mpr (binadeSize_mul_le hden hnormal)).trans
        (le_roundHalfEven _ _))
    · exact Or.inl (surplusBits_eq_zero hden (Nat.not_le.mp hnormal))
  have hmin : nearestMagnitude num den = surplusBits num den * binadeSize +
      roundHalfEven num (den <<< surplusBits num den) := by
    apply Nat.min_eq_left
    by_contra hgt
    have hmax : nearestMagnitude num den = infinityMagnitude :=
      Nat.min_eq_right (Nat.le_of_not_le hgt)
    exact Nat.ne_of_lt hfinite hmax
  rw [hmin, magnitudeUnits_add hhigh hlow]

/-- A finite rounded quotient is off by at most half of the divisor that leaves 53 bits. -/
theorem nearestMagnitude_error {num den : Nat} (hden : 0 < den)
    (hfinite : nearestMagnitude num den < infinityMagnitude) :
    2 * (magnitudeUnits (nearestMagnitude num den) * den) ≤
        2 * num + den <<< surplusBits num den ∧
      2 * num ≤ 2 * (magnitudeUnits (nearestMagnitude num den) * den) +
        den <<< surplusBits num den := by
  have hshift : 0 < den <<< surplusBits num den := shiftLeft_pos hden _
  have hunits : magnitudeUnits (nearestMagnitude num den) * den =
      roundHalfEven num (den <<< surplusBits num den) * (den <<< surplusBits num den) := by
    rw [magnitudeUnits_nearestMagnitude hden hfinite, Nat.shiftLeft_eq, Nat.shiftLeft_eq]
    ring
  rw [hunits]
  exact roundHalfEven_error num hshift

/-- A quotient that rounds to zero is at most a half. -/
theorem le_of_nearestMagnitude_eq_zero {num den : Nat} (hden : 0 < den)
    (h : nearestMagnitude num den = 0) : 2 * num ≤ den := by
  have hzero : magnitudeUnits 0 = 0 := by decide
  obtain ⟨-, hlow⟩ := nearestMagnitude_error hden (h ▸ (by decide : 0 < infinityMagnitude))
  rw [h, hzero, Nat.zero_mul, Nat.mul_zero, Nat.zero_add] at hlow
  by_cases hnormal : binadeSize * den ≤ num
  · have hstep := binadeSize_mul_le hden hnormal
    have hbinade : 2 ≤ binadeSize := by decide
    have hscaled := Nat.mul_le_mul_right (den <<< surplusBits num den) hbinade
    omega
  · rwa [surplusBits_eq_zero hden (Nat.not_le.mp hnormal), Nat.shiftLeft_zero] at hlow

/-! ## Magnitudes in order -/

/-- Larger magnitudes have more units. -/
theorem magnitudeUnits_strictMono : StrictMono magnitudeUnits := by
  refine strictMono_nat_of_lt_succ fun magnitude => ?_
  obtain ⟨surplus, rest, rfl, hrest, hlow⟩ := exists_eq_surplus_add magnitude
  rw [magnitudeUnits_add hrest.le hlow, Nat.add_assoc,
    magnitudeUnits_add hrest (hlow.imp_right Nat.le_succ_of_le), Nat.shiftLeft_eq,
    Nat.shiftLeft_eq]
  exact Nat.mul_lt_mul_of_pos_right (Nat.lt_succ_self rest) (Nat.two_pow_pos surplus)

/-- The smallest normal number has as many units as its magnitude says. -/
theorem magnitudeUnits_binadeSize : magnitudeUnits binadeSize = binadeSize := by decide

/-! ## Normal results -/

/-- The word stands for a number that is not zero and closer to zero than every normal number. -/
def IsSubnormal (x : Binary64) : Prop := ¬ x.IsZero ∧ x.magnitude < binadeSize

/-- The word stands for a number, and the number is zero or normal: an operation that has it as its
result has neither overflowed nor lost bits below the smallest normal number. -/
def IsRegular (x : Binary64) : Prop := x.IsFinite ∧ ¬ x.IsSubnormal

instance (x : Binary64) : Decidable x.IsSubnormal := inferInstanceAs (Decidable (_ ∧ _))
instance (x : Binary64) : Decidable x.IsRegular := inferInstanceAs (Decidable (_ ∧ _))

/-- A regular value is a zero or normal. -/
theorem IsRegular.isZero_or_le {x : Binary64} (h : x.IsRegular) :
    x.IsZero ∨ binadeSize ≤ x.magnitude := by
  have hnot := h.2
  rw [IsSubnormal, not_and_or, not_not, Nat.not_lt] at hnot
  exact hnot

/-- A rounded quotient has the sign it is given. -/
theorem negative_ofQuotient (negative : Bool) (num den : Nat) :
    (ofQuotient negative num den).negative = negative := rfl

/-- The units of a rounded quotient are those of the nearest magnitude. -/
theorem units_ofQuotient (negative : Bool) (num den : Nat) :
    (ofQuotient negative num den).units = magnitudeUnits (nearestMagnitude num den) := rfl

/-- A regular quotient has not overflowed, and it is a zero or normal. -/
theorem isRegular_ofQuotient {negative : Bool} {num den : Nat}
    (h : (ofQuotient negative num den).IsRegular) :
    nearestMagnitude num den < infinityMagnitude ∧
      (nearestMagnitude num den = 0 ∨ binadeSize ≤ nearestMagnitude num den) :=
  ⟨h.1, h.isZero_or_le⟩

/-- A finite product is the exact one, rounded once. -/
theorem mul_eq_of_isFinite {x y : Binary64} (h : (x * y).IsFinite) :
    x * y = ofQuotient (x.negative != y.negative) (x.units * y.units) unitsPerOne := by
  change mul x y = _
  change (mul x y).IsFinite at h
  unfold mul at h ⊢
  simp only at h ⊢
  split at h
  · exact absurd h (by decide)
  · split at h
    · split at h
      · exact absurd h (by decide)
      · exact absurd h (Nat.lt_irrefl _)
    · simp_all

/-- A finite quotient by a finite number other than zero is the exact one, rounded once. -/
theorem div_eq_of_isFinite {x y : Binary64} (hy : y.IsFinite) (hzero : ¬ y.IsZero)
    (h : (x / y).IsFinite) :
    x / y = ofQuotient (x.negative != y.negative) (x.units * unitsPerOne) y.units := by
  change div x y = _
  change (div x y).IsFinite at h
  unfold div at h ⊢
  simp only [hy.not_isNaN, hy.not_isInfinite, hzero, or_false, if_false] at h ⊢
  split at h
  · exact absurd h (by decide)
  · split at h
    · exact absurd h (Nat.lt_irrefl _)
    · simp_all

/-! ## Numbers that come from each other by rounding -/

/-- The rational number that a finite word stands for. -/
def toRat (x : Binary64) : ℚ := x.signedUnits / unitsPerOne

end Binary64

/-- The largest relative error of one rounding to 53 bits. -/
def unitRoundoff : ℚ := 1 / 2 ^ 53

/-- The number `x` may come from the number `y`, which is not negative, by `k` roundings. -/
def IsWithin (k : Nat) (x y : ℚ) : Prop :=
  (1 - unitRoundoff) ^ k * y ≤ x ∧ x ≤ (1 + unitRoundoff) ^ k * y

namespace IsWithin

variable {j k : Nat} {x y z : ℚ}

/-- A number comes from itself without roundings. -/
theorem refl (x : ℚ) : IsWithin 0 x x := by
  rw [IsWithin, pow_zero, pow_zero, one_mul]
  exact ⟨le_refl x, le_refl x⟩

/-- A rounding down leaves a factor that is not negative. -/
theorem one_sub_nonneg : 0 ≤ 1 - unitRoundoff := by
  rw [unitRoundoff]
  norm_num

/-- A rounding up leaves a factor that is not negative. -/
theorem one_add_nonneg : 0 ≤ 1 + unitRoundoff := by
  rw [unitRoundoff]
  norm_num

/-- Roundings one after the other add up. -/
theorem trans (hxy : IsWithin j x y) (hyz : IsWithin k y z) : IsWithin (j + k) x z := by
  constructor
  · calc (1 - unitRoundoff) ^ (j + k) * z
        = (1 - unitRoundoff) ^ j * ((1 - unitRoundoff) ^ k * z) := by rw [pow_add, mul_assoc]
      _ ≤ (1 - unitRoundoff) ^ j * y :=
        mul_le_mul_of_nonneg_left hyz.1 (pow_nonneg one_sub_nonneg j)
      _ ≤ x := hxy.1
  · calc x
        ≤ (1 + unitRoundoff) ^ j * y := hxy.2
      _ ≤ (1 + unitRoundoff) ^ j * ((1 + unitRoundoff) ^ k * z) :=
        mul_le_mul_of_nonneg_left hyz.2 (pow_nonneg one_add_nonneg j)
      _ = (1 + unitRoundoff) ^ (j + k) * z := by rw [pow_add, mul_assoc]

/-- A factor that is not negative keeps relative errors. -/
theorem mul_right (h : IsWithin k x y) {c : ℚ} (hc : 0 ≤ c) : IsWithin k (x * c) (y * c) := by
  rw [IsWithin, ← mul_assoc, ← mul_assoc]
  exact ⟨mul_le_mul_of_nonneg_right h.1 hc, mul_le_mul_of_nonneg_right h.2 hc⟩

/-- A positive factor can be taken away from both numbers. -/
theorem of_mul_right {c : ℚ} (hc : 0 < c) (h : IsWithin k (x * c) (y * c)) : IsWithin k x y := by
  rw [IsWithin, ← mul_assoc, ← mul_assoc] at h
  exact ⟨le_of_mul_le_mul_right h.1 hc, le_of_mul_le_mul_right h.2 hc⟩

/-- More roundings allow more. -/
theorem mono (h : IsWithin j x y) (hjk : j ≤ k) (hy : 0 ≤ y) : IsWithin k x y := by
  have hlow : (1 - unitRoundoff) ^ k ≤ (1 - unitRoundoff) ^ j := by
    refine pow_le_pow_of_le_one one_sub_nonneg ?_ hjk
    rw [unitRoundoff]
    norm_num
  have hhigh : (1 + unitRoundoff) ^ j ≤ (1 + unitRoundoff) ^ k := by
    refine pow_le_pow_right₀ ?_ hjk
    rw [unitRoundoff]
    norm_num
  exact ⟨(mul_le_mul_of_nonneg_right hlow hy).trans h.1,
    h.2.trans (mul_le_mul_of_nonneg_right hhigh hy)⟩

/-- The bound downwards is no larger than the bound upwards. -/
theorem two_le_pow_add_pow (k : Nat) : 2 ≤ (1 - unitRoundoff) ^ k + (1 + unitRoundoff) ^ k := by
  have hdown := one_add_mul_le_pow (a := -unitRoundoff) (by rw [unitRoundoff]; norm_num) k
  have hup := one_add_mul_le_pow (a := unitRoundoff) (by rw [unitRoundoff]; norm_num) k
  rw [← sub_eq_add_neg] at hdown
  linarith

/-- Numbers within `k` roundings differ by the compound relative error of `k` roundings. -/
theorem abs_sub_le (h : IsWithin k x y) (hy : 0 ≤ y) :
    |x - y| ≤ y * ((1 + unitRoundoff) ^ k - 1) := by
  have hpowers := mul_le_mul_of_nonneg_right (two_le_pow_add_pow k) hy
  obtain ⟨hlow, hhigh⟩ := h
  rw [abs_le]
  constructor
  · linarith
  · linarith

end IsWithin

namespace Binary64

/-- A rounded quotient that is at least the smallest normal number is within one rounding of the
exact one. -/
theorem isWithin_nearestMagnitude {num den : Nat} (hden : 0 < den)
    (hfinite : nearestMagnitude num den < infinityMagnitude) (h : binadeSize * den ≤ num) :
    IsWithin 1 (magnitudeUnits (nearestMagnitude num den) * den) num := by
  obtain ⟨hhigh, hlow⟩ := nearestMagnitude_error hden hfinite
  have hstep := binadeSize_mul_le hden h
  have hbinade : (binadeSize : ℚ) = 2 ^ 52 := by norm_num [binadeSize]
  generalize den <<< surplusBits num den = step at *
  have hhigh' : (2 : ℚ) * (magnitudeUnits (nearestMagnitude num den) * den) ≤ 2 * num + step := by
    exact_mod_cast hhigh
  have hlow' : (2 : ℚ) * num ≤ 2 * (magnitudeUnits (nearestMagnitude num den) * den) + step := by
    exact_mod_cast hlow
  have hstep' : (binadeSize : ℚ) * step ≤ num := by exact_mod_cast hstep
  rw [hbinade] at hstep'
  rw [IsWithin, pow_one, pow_one, unitRoundoff]
  constructor
  · linarith
  · linarith

/-- A quotient below the smallest normal number that does not round to a subnormal one rounds up to
the smallest normal number, by at most half a unit. -/
theorem nearestMagnitude_eq_binadeSize {num den : Nat} (hden : 0 < den)
    (h : num < binadeSize * den) (hnormal : binadeSize ≤ nearestMagnitude num den)
    (hfinite : nearestMagnitude num den < infinityMagnitude) :
    nearestMagnitude num den = binadeSize ∧ 2 * (binadeSize * den) ≤ 2 * num + den := by
  have hunits := magnitudeUnits_strictMono.le_iff_le.mpr hnormal
  rw [magnitudeUnits_binadeSize] at hunits
  obtain ⟨hhigh, -⟩ := nearestMagnitude_error hden hfinite
  rw [surplusBits_eq_zero hden h, Nat.shiftLeft_zero] at hhigh
  have hscaled := Nat.mul_le_mul_right den hunits
  refine ⟨?_, by omega⟩
  have hlt : magnitudeUnits (nearestMagnitude num den) < magnitudeUnits (binadeSize + 1) := by
    have hsucc : magnitudeUnits (binadeSize + 1) = binadeSize + 1 := by decide
    rw [hsucc]
    refine Nat.lt_of_mul_lt_mul_right (a := den) ?_
    rw [Nat.add_mul]
    omega
  exact Nat.le_antisymm (Nat.le_of_lt_succ (magnitudeUnits_strictMono.lt_iff_lt.mp hlt)) hnormal

/-- A value is its sign times its units, counted from one. -/
theorem toRat_eq (x : Binary64) :
    x.toRat = (if x.negative then -1 else 1) * (x.units / unitsPerOne : ℚ) := by
  rw [toRat, signedUnits]
  cases x.negative
  · simp
  · simp [neg_div]

/-- A number whose units come by roundings from those of another one of its sign, times a factor,
differs from that product by the compound relative error. -/
theorem abs_toRat_sub_mul_le {k : Nat} {x y : Binary64} (hsign : y.negative = x.negative) {c : ℚ}
    (hc : 0 ≤ c) (h : IsWithin k y.units (x.units * c)) :
    |y.toRat - x.toRat * c| ≤ |x.toRat * c| * ((1 + unitRoundoff) ^ k - 1) := by
  have hone : (0 : ℚ) < unitsPerOne := Nat.cast_pos.mpr unitsPerOne_pos
  have hsize : |(if x.negative then -1 else 1 : ℚ)| = 1 := by
    cases x.negative
    · simp
    · simp
  have hproduct : (0 : ℚ) ≤ x.units * c := mul_nonneg (Nat.cast_nonneg x.units) hc
  have herror := h.abs_sub_le hproduct
  rw [toRat_eq, toRat_eq, hsign, mul_assoc, div_mul_eq_mul_div, ← mul_sub, abs_mul, abs_mul, hsize,
    one_mul, one_mul, ← sub_div, abs_div, abs_div, abs_of_pos hone, abs_of_nonneg hproduct,
    div_mul_eq_mul_div]
  exact div_le_div_of_nonneg_right herror hone.le

end Binary64

end CssValues
