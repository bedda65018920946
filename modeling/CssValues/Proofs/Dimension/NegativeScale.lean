import CssValues.Dimension.Resolution
import CssValues.Proofs.Binary64.RelativeError
import CssValues.Proofs.Binary64.Whole

/-!
# Resolutions scaled by negative factors

Scaling checks the product and not the factor. A product by a negative factor is below zero, or NaN,
unless it is a zero: the zero of either sign passes the check, as it does when a resolution is
built. The product is a zero exactly when the exact product is at most half of the smallest positive
value, so a negative factor never gives a resolution other than zero.
-/

namespace CssValues

namespace Binary64

/-! ## Products that vanish -/

/-- What is at most a half rounds to zero. -/
theorem nearestMagnitude_eq_zero_iff {num den : Nat} (hden : 0 < den) :
    nearestMagnitude num den = 0 ↔ 2 * num ≤ den := by
  refine ⟨le_of_nearestMagnitude_eq_zero hden, fun h => ?_⟩
  have hquotient : num / den = 0 := Nat.div_eq_of_lt (by omega)
  have hsurplus : surplusBits num den = 0 := by
    rw [surplusBits, hquotient]
    rfl
  have hmod : num % den = num := Nat.mod_eq_of_lt (by omega)
  have hrounded : roundHalfEven num den = 0 := by
    simp only [roundHalfEven, hquotient, hmod]
    split
    · rfl
    · rw [if_neg (Nat.not_lt.mpr h)]
  simp only [nearestMagnitude, hsurplus, Nat.shiftLeft_zero, hrounded, Nat.zero_mul]
  exact Nat.zero_min _

/-- The exact product is at most half of the smallest positive value away from zero. -/
def HasVanishingProduct (x y : Binary64) : Prop :=
  x.IsFinite ∧ y.IsFinite ∧ |x.toRat * y.toRat| ≤ 1 / (2 * unitsPerOne)

/-- The distance from zero is the number of units. -/
theorem abs_toRat (x : Binary64) : |x.toRat| = x.units / unitsPerOne := by
  rw [toRat, abs_div, Nat.abs_cast, ← Int.cast_abs, Int.abs_eq_natAbs, natAbs_signedUnits,
    Int.cast_natCast]

/-- A product of finite values is the exact one, rounded once. -/
theorem mul_eq_ofQuotient {x y : Binary64} (hx : x.IsFinite) (hy : y.IsFinite) :
    x * y = ofQuotient (x.negative != y.negative) (x.units * y.units) unitsPerOne := by
  change mul x y = _
  simp only [mul, hx.not_isNaN, hy.not_isNaN, hx.not_isInfinite, hy.not_isInfinite, or_self,
    if_false]

/-- A product of finite values is a zero exactly when it vanishes. -/
theorem isZero_mul_iff {x y : Binary64} (hx : x.IsFinite) (hy : y.IsFinite) :
    (x * y).IsZero ↔ HasVanishingProduct x y := by
  have hone := cast_unitsPerOne_pos
  have hexact : (x.units * y.units : ℚ) * (2 * unitsPerOne) =
      (2 * (x.units * y.units) : ℕ) * unitsPerOne := by
    push_cast
    ring
  rw [mul_eq_ofQuotient hx hy]
  change nearestMagnitude (x.units * y.units) unitsPerOne = 0 ↔ _
  rw [nearestMagnitude_eq_zero_iff unitsPerOne_pos]
  simp only [HasVanishingProduct, hx, hy, true_and]
  rw [abs_mul, abs_toRat, abs_toRat, div_mul_div_comm,
    div_le_div_iff₀ (mul_pos hone hone) (mul_pos two_pos hone), one_mul, hexact,
    mul_le_mul_iff_left₀ hone, Nat.cast_le]

/-- A value is not at least zero when it is below zero, or NaN. -/
theorem not_zero_le_iff {x : Binary64} : ¬ 0 ≤ x ↔ x < 0 ∨ x.IsNaN := by
  rw [zero_le_iff, lt_zero_iff]
  by_cases hnan : x.IsNaN
  · exact iff_of_true (fun h => h.1 hnan) (Or.inr hnan)
  · simp only [hnan, not_false_eq_true, true_and, or_false, Classical.not_imp]

/-- The infinity of the negative sign is below zero. -/
theorem not_zero_le_infinity : ¬ 0 ≤ infinity true := by
  rw [zero_le_iff, not_and, Classical.not_imp]
  exact fun _ => ⟨rfl, by decide⟩

/-- A product with an infinity is an infinity of the negative sign, or NaN, if the factors have
different signs. -/
theorem not_zero_le_mul_of_isInfinite {x y : Binary64} (hx : 0 ≤ x) (hy : y < 0)
    (hinfinite : x.IsInfinite ∨ y.IsInfinite) : ¬ 0 ≤ x * y := by
  obtain ⟨hxnan, hxzero⟩ := zero_le_iff.mp hx
  obtain ⟨hynan, hysign, hynonzero⟩ := lt_zero_iff.mp hy
  change ¬ 0 ≤ mul x y
  simp only [mul, hxnan, hynan, or_self, if_false, hinfinite, if_true, hynonzero, or_false]
  split
  · exact fun hle => hle.2.1 (by decide)
  next hnonzero =>
    have hxsign : x.negative = false := Bool.eq_false_of_not_eq_true (mt hxzero hnonzero)
    rw [hxsign, hysign]
    exact not_zero_le_infinity

/-- The product of a value that is not negative and a negative one is not negative only if it
vanishes: any other product is below zero, or NaN. -/
theorem zero_le_mul_iff_of_lt_zero {x y : Binary64} (hx : 0 ≤ x) (hy : y < 0) :
    0 ≤ x * y ↔ HasVanishingProduct x y := by
  obtain ⟨hxnan, hxzero⟩ := zero_le_iff.mp hx
  obtain ⟨hynan, hysign, -⟩ := lt_zero_iff.mp hy
  by_cases hinfinite : x.IsInfinite ∨ y.IsInfinite
  · refine iff_of_false (not_zero_le_mul_of_isInfinite hx hy hinfinite) fun hvanishes => ?_
    exact hinfinite.elim hvanishes.1.not_isInfinite hvanishes.2.1.not_isInfinite
  · rw [not_or] at hinfinite
    have hxfinite := (isFinite_or_isInfinite hxnan).resolve_right hinfinite.1
    have hyfinite := (isFinite_or_isInfinite hynan).resolve_right hinfinite.2
    rw [← isZero_mul_iff hxfinite hyfinite, zero_le_iff]
    refine ⟨fun h => ?_, fun hzero => ⟨fun hnan => ?_, fun _ => hzero⟩⟩
    · cases hxsign : x.negative with
      | true =>
        rw [mul_eq_ofQuotient hxfinite hyfinite, units_eq_zero_iff.mpr (hxzero hxsign),
          Nat.zero_mul]
        exact nearestMagnitude_zero _
      | false =>
        refine h.2 ?_
        rw [mul_eq_ofQuotient hxfinite hyfinite, negative_ofQuotient, hxsign, hysign]
        rfl
    · rw [IsNaN, hzero] at hnan
      exact absurd hnan (by decide)

end Binary64

namespace Resolution

open Binary64 (HasVanishingProduct)

/-- A negative factor is refused, and the error has the product, which is below zero or NaN, unless
the exact product vanishes; then scaling gives the resolution zero in the same unit. -/
theorem negative_scale_refused_or_zero (r : Resolution) {factor : Binary64} (h : factor < 0) :
    (¬ HasVanishingProduct r.value factor →
      r.scale factor = .error (.negativeResolution (r.value * factor)) ∧
        (r.value * factor < 0 ∨ (r.value * factor).IsNaN)) ∧
    (HasVanishingProduct r.value factor →
      ∃ s, r.scale factor = .ok s ∧ s.value.IsZero ∧ s.unit = r.unit) := by
  have hiff := Binary64.zero_le_mul_iff_of_lt_zero r.zero_le_value h
  refine ⟨fun hrefused => ?_, fun hvanishes => ?_⟩
  · have hproduct : ¬ 0 ≤ r.value * factor := mt hiff.mp hrefused
    exact ⟨ofValue_eq_error hproduct r.unit, Binary64.not_zero_le_iff.mp hproduct⟩
  · exact ⟨_, ofValue_eq_ok (hiff.mpr hvanishes) r.unit,
      (Binary64.isZero_mul_iff hvanishes.1 hvanishes.2.1).mpr hvanishes, rfl⟩

/-- One dot per pixel refuses the factor minus two, with the product minus two. The least resolution
above zero takes the factor minus a half, with which the product rounds to zero. -/
theorem negative_scale_of_one_and_least :
    let one : Resolution := ⟨⟨1, .dppx⟩, by decide +kernel⟩
    let least : Resolution := ⟨⟨.ofBits 1, .dppx⟩, by decide +kernel⟩
    ((-2 : Binary64) < 0 ∧ ¬ HasVanishingProduct one.value (-2) ∧
      one.scale (-2) = .error (.negativeResolution (-2)) ∧ one.value * -2 = -2) ∧
    (-0.5 : Binary64) < 0 ∧ HasVanishingProduct least.value (-0.5) ∧
      ∃ s, least.scale (-0.5) = .ok s ∧ s.value.IsZero ∧ s.unit = .dppx := by
  intro one least
  have htwo : (-2 : Binary64) < 0 := by decide +kernel
  have hhalf : (-0.5 : Binary64) < 0 := by decide +kernel
  have hone : ¬ HasVanishingProduct one.value (-2) := by
    rw [← Binary64.isZero_mul_iff (by decide +kernel) (by decide +kernel)]
    decide +kernel
  have hleast : HasVanishingProduct least.value (-0.5) := by
    rw [← Binary64.isZero_mul_iff (by decide +kernel) (by decide +kernel)]
    decide +kernel
  have hproduct : one.value * -2 = -2 := by decide +kernel
  obtain ⟨herror, -⟩ := (negative_scale_refused_or_zero one htwo).1 hone
  rw [hproduct] at herror
  exact ⟨⟨htwo, hone, herror, hproduct⟩,
    hhalf, hleast, (negative_scale_refused_or_zero least hhalf).2 hleast⟩

/-- The resolution zero takes a negative factor, so not every negative factor is refused. -/
theorem zero_takes_negative_factor :
    let zero : Resolution := ⟨⟨.zero false, .dppx⟩, by decide +kernel⟩
    ((-2 : Binary64) < 0 ∧ ∃ s, zero.scale (-2) = .ok s ∧ s.value = .zero true) ∧
    ¬ ∀ (r : Resolution) (factor : Binary64), factor < 0 →
      ∃ value, r.scale factor = .error (.negativeResolution value) := by
  intro zero
  have hnegative : (-2 : Binary64) < 0 := by decide +kernel
  have hproduct : zero.value * -2 = .zero true := by decide +kernel
  have hscale : zero.scale (-2) = .ok ⟨⟨zero.value * -2, .dppx⟩, by decide +kernel⟩ :=
    ofValue_eq_ok _ _
  refine ⟨⟨hnegative, _, hscale, hproduct⟩, fun hrefused => ?_⟩
  obtain ⟨value, herror⟩ := hrefused zero (-2) hnegative
  rw [hscale] at herror
  cases herror

end Resolution

end CssValues
