import CssValues.Dimension.Linear
import CssValues.Proofs.Binary64.MagnitudeMaps
import Mathlib.Tactic.MkIffOfInductiveProp

/-!
# One conversion

A conversion multiplies by the size of one unit and divides by that of another, and rounds after
each step. If neither the product nor the quotient overflows or becomes subnormal, it is within two
roundings of the exact result.

The smallest normal number needs care. A product just below it may round up to it, with a larger
relative error than any other; the quotient that follows makes up for that. What it takes is a
property of the sizes, `IsUnitSize`, and is checked for each of them.
-/

namespace CssValues

open Binary64 (binadeSize magnitudeUnits nearestMagnitude unitsPerOne infinityMagnitude)

/-! ## Sizes of units -/

/-- The least normal magnitude whose quotient by a size is not below the smallest normal number. -/
def leastDividend (size : Binary64) : Nat :=
  Nat.max binadeSize (nearestMagnitude (binadeSize * size.units) unitsPerOne)

/-- The magnitude of the smallest normal number divided by a size. -/
def smallestQuotient (size : Binary64) : Nat :=
  nearestMagnitude (binadeSize * unitsPerOne) size.units

/-- No quotient of a normal number by the size rounds up to the smallest normal number: the last one
below it is more than half a unit away. -/
def HasClearBorder (size : Binary64) : Prop :=
  binadeSize * size.units ≤ magnitudeUnits (leastDividend size) * unitsPerOne ∧
    (leastDividend size = binadeSize ∨
      2 * (magnitudeUnits (leastDividend size - 1) * unitsPerOne) + size.units <
        2 * (binadeSize * size.units))

/-- The smallest normal number, divided by the size, is subnormal or off by no more than three
quarters of a rounding. -/
def HasCloseQuotient (size : Binary64) : Prop :=
  smallestQuotient size < binadeSize ∨
    8 * binadeSize * (magnitudeUnits (smallestQuotient size) * size.units) ≤
      (8 * binadeSize + 3) * (binadeSize * unitsPerOne)

instance (size : Binary64) : Decidable (HasClearBorder size) := inferInstanceAs (Decidable (_ ∧ _))
instance (size : Binary64) : Decidable (HasCloseQuotient size) :=
  inferInstanceAs (Decidable (_ ∨ _))

/-- A size that no rounding around the smallest normal number can hurt. It lies between a half and
`2 ^ 53`, so that nothing rounds to zero. -/
@[mk_iff]
structure IsUnitSize (size : Binary64) : Prop where
  isFinite : size.IsFinite
  negative_eq : size.negative = false
  half_lt : unitsPerOne < 2 * size.units
  lt_normal : size.units < 2 * binadeSize * unitsPerOne
  hasClearBorder : HasClearBorder size
  hasCloseQuotient : HasCloseQuotient size

instance (size : Binary64) : Decidable (IsUnitSize size) :=
  decidable_of_iff _ (isUnitSize_iff size).symm

namespace IsUnitSize

variable {size : Binary64} (h : IsUnitSize size)

include h

/-- A size has some units. -/
theorem units_pos : 0 < size.units := by
  have hhalf := h.half_lt
  omega

/-- A size is not zero. -/
theorem not_isZero : ¬ size.IsZero :=
  fun hzero => Nat.ne_of_gt h.units_pos (Binary64.units_eq_zero_iff.mpr hzero)

/-- A size is above zero. -/
theorem pos : 0 < size :=
  Binary64.zero_lt_iff.mpr ⟨h.isFinite.not_isNaN, h.negative_eq, h.not_isZero⟩

/-- Only zero has a product that rounds to zero. -/
theorem eq_zero_of_product {value : Nat}
    (hproduct : nearestMagnitude (value * size.units) unitsPerOne = 0) : value = 0 := by
  have hhalf := Binary64.le_of_nearestMagnitude_eq_zero Binary64.unitsPerOne_pos hproduct
  have hsize := h.half_lt
  by_contra hne
  have hscaled := Nat.mul_le_mul_right size.units (Nat.one_le_iff_ne_zero.mpr hne)
  omega

section Quotient

variable {magnitude : Nat} (hnormal : binadeSize ≤ magnitude)

include hnormal

/-- No normal number has a quotient that rounds to zero. -/
theorem quotient_ne_zero :
    nearestMagnitude (magnitudeUnits magnitude * unitsPerOne) size.units ≠ 0 := by
  intro hquotient
  have hhalf := Binary64.le_of_nearestMagnitude_eq_zero h.units_pos hquotient
  have hunits := Binary64.magnitudeUnits_strictMono.monotone hnormal
  rw [Binary64.magnitudeUnits_binadeSize] at hunits
  have hscaled := Nat.mul_le_mul_right unitsPerOne hunits
  have hsize := h.lt_normal
  rw [Nat.mul_assoc] at hsize
  omega

/-- A quotient of a normal number that is not below the smallest normal number has not been rounded
up to it. -/
theorem le_of_normal_quotient
    (hquotient : binadeSize ≤
      nearestMagnitude (magnitudeUnits magnitude * unitsPerOne) size.units)
    (hfinite : nearestMagnitude (magnitudeUnits magnitude * unitsPerOne) size.units <
      infinityMagnitude) :
    binadeSize * size.units ≤ magnitudeUnits magnitude * unitsPerOne := by
  obtain ⟨hleast, hborder⟩ := h.hasClearBorder
  by_contra hlt
  rw [Nat.not_le] at hlt
  obtain ⟨-, hhalf⟩ :=
    Binary64.nearestMagnitude_eq_binadeSize h.units_pos hlt hquotient hfinite
  have hbelow : magnitude < leastDividend size :=
    Binary64.magnitudeUnits_strictMono.lt_iff_lt.mp
      (Nat.lt_of_mul_lt_mul_right (hlt.trans_le hleast))
  rcases hborder with hbinade | hprevious
  · exact Nat.not_le.mpr hbelow (hbinade.trans_le hnormal)
  · have hmono := Binary64.magnitudeUnits_strictMono.monotone (Nat.le_sub_one_of_lt hbelow)
    have hscaled := Nat.mul_le_mul_right unitsPerOne hmono
    omega

end Quotient

end IsUnitSize

/-! ## Product and quotient -/

/-- Two roundings that are off by three quarters of a rounding and by half a unit stay within two
roundings. -/
theorem IsWithin.of_rounded_up {quotient border product : ℚ}
    (hquotient : IsWithin 1 quotient border)
    (hborder : 8 * 2 ^ 52 * quotient ≤ (8 * 2 ^ 52 + 3) * border)
    (hle : product ≤ border) (hhalf : (1 - unitRoundoff) * border ≤ product) :
    IsWithin 2 quotient product := by
  have hdown := mul_le_mul_of_nonneg_left hle IsWithin.one_sub_nonneg
  have hlow := hquotient.1
  rw [pow_one] at hlow
  rw [unitRoundoff] at hdown hhalf hlow
  rw [IsWithin, unitRoundoff]
  constructor
  · linarith
  · linarith

/-- When the product has been rounded up to the smallest normal number, the quotient makes up for
it. -/
theorem isWithin_smallestQuotient {size : Binary64} (hsize : IsUnitSize size) {product : Nat}
    (hnormal : binadeSize ≤ smallestQuotient size)
    (hquotient : IsWithin 1 (magnitudeUnits (smallestQuotient size) * size.units)
      (binadeSize * unitsPerOne))
    (hle : product ≤ binadeSize * unitsPerOne)
    (hhalf : 2 * (binadeSize * unitsPerOne) ≤ 2 * product + unitsPerOne) :
    IsWithin 2 (magnitudeUnits (smallestQuotient size) * size.units) product := by
  have hbinade : (binadeSize : ℚ) = 2 ^ 52 := by norm_num [binadeSize]
  have hupper := hsize.hasCloseQuotient.resolve_left (Nat.not_lt.mpr hnormal)
  refine hquotient.of_rounded_up ?_ ?_ ?_
  · rw [← hbinade]
    exact_mod_cast hupper
  · exact_mod_cast hle
  · have hhalf' : (2 : ℚ) * (binadeSize * unitsPerOne) ≤ 2 * product + unitsPerOne := by
      exact_mod_cast hhalf
    rw [hbinade] at hhalf' ⊢
    rw [unitRoundoff]
    linarith

/-- A quotient of a product by sizes is within two roundings of the exact one, if neither overflows
or becomes subnormal. -/
theorem isWithin_product_quotient {source target : Binary64} (hsource : IsUnitSize source)
    (htarget : IsUnitSize target) {value product quotient : Nat}
    (hproduct : nearestMagnitude (value * source.units) unitsPerOne = product)
    (hquotient : nearestMagnitude (magnitudeUnits product * unitsPerOne) target.units = quotient)
    (hproductRegular : product < infinityMagnitude ∧ (product = 0 ∨ binadeSize ≤ product))
    (hquotientRegular : quotient < infinityMagnitude ∧ (quotient = 0 ∨ binadeSize ≤ quotient)) :
    IsWithin 2 (magnitudeUnits quotient * target.units) (value * source.units) := by
  have hone := Binary64.unitsPerOne_pos
  obtain ⟨hproductFinite, hzero | hproductNormal⟩ := hproductRegular
  · have hnone : magnitudeUnits 0 = 0 := by decide
    have hvalue := hsource.eq_zero_of_product (hproduct.trans hzero)
    rw [hzero, hnone, Nat.zero_mul, Binary64.nearestMagnitude_zero] at hquotient
    rw [← hquotient, hnone, hvalue]
    simp [IsWithin]
  · have hquotientNormal : binadeSize ≤ quotient :=
      hquotientRegular.2.resolve_left (hquotient ▸ htarget.quotient_ne_zero hproductNormal)
    have hexact := htarget.le_of_normal_quotient hproductNormal
      (hquotientNormal.trans_eq hquotient.symm) (hquotient.trans_lt hquotientRegular.1)
    have hlast := Binary64.isWithin_nearestMagnitude htarget.units_pos
      (hquotient.trans_lt hquotientRegular.1) hexact
    rw [hquotient, Nat.cast_mul] at hlast
    rcases Nat.lt_or_ge (value * source.units) (binadeSize * unitsPerOne) with hbelow | hnormal
    · obtain ⟨hborder, hhalf⟩ := Binary64.nearestMagnitude_eq_binadeSize hone hbelow
        (hproductNormal.trans_eq hproduct.symm) (hproduct.trans_lt hproductFinite)
      rw [hproduct] at hborder
      rw [hborder, Binary64.magnitudeUnits_binadeSize] at hquotient hlast
      rw [← Nat.cast_mul value, ← hquotient]
      rw [← hquotient] at hquotientNormal hlast
      exact isWithin_smallestQuotient htarget hquotientNormal hlast hbelow.le hhalf
    · have hfirst := Binary64.isWithin_nearestMagnitude hone
        (hproduct.trans_lt hproductFinite) hnormal
      rw [hproduct, Nat.cast_mul value] at hfirst
      exact hlast.trans hfirst

/-- A product and a quotient that are regular are within two roundings, and keep the sign. -/
theorem isWithin_rescale {value source target : Binary64} (hsource : IsUnitSize source)
    (htarget : IsUnitSize target) (hproduct : (value * source).IsRegular)
    (hquotient : (rescale value source target).IsRegular) :
    (rescale value source target).negative = value.negative ∧
      IsWithin 2 ((rescale value source target).units * target.units)
        (value.units * source.units) := by
  have hmul := Binary64.mul_eq_of_isFinite hproduct.1
  have hdiv := Binary64.div_eq_of_isFinite htarget.isFinite htarget.not_isZero hquotient.1
  rw [hsource.negative_eq, Bool.bne_false] at hmul
  rw [hmul, htarget.negative_eq, Bool.bne_false, Binary64.negative_ofQuotient,
    Binary64.units_ofQuotient] at hdiv
  rw [rescale, hmul, hdiv] at hquotient ⊢
  rw [hmul] at hproduct
  rw [Binary64.negative_ofQuotient, Binary64.units_ofQuotient]
  exact ⟨rfl, isWithin_product_quotient hsource htarget rfl rfl
    (Binary64.isRegular_ofQuotient hproduct) (Binary64.isRegular_ofQuotient hquotient)⟩

/-- A conversion acts on magnitudes, by a product and then a quotient. -/
theorem actsOnMagnitudes_rescale {source target : Binary64} (hsource : IsUnitSize source)
    (htarget : IsUnitSize target) :
    Binary64.ActsOnMagnitudes (rescale · source target)
      (Binary64.scaleMagnitude unitsPerOne target.units ∘
        Binary64.scaleMagnitude source.units unitsPerOne) :=
  (Binary64.actsOnMagnitudes_mul hsource.isFinite hsource.pos).comp
    (Binary64.actsOnMagnitudes_div htarget.isFinite htarget.pos)

end CssValues
