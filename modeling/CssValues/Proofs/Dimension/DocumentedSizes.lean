import CssValues.Proofs.Binary64.Whole
import CssValues.Proofs.Dimension.ConversionChain
import Mathlib.Analysis.Real.Pi.Bounds

/-!
# Conversions by the documented sizes

The units of a family have sizes by definition: an inch is 96 pixels and 2.54 centimetres, half a
turn is `π` radians. A conversion computes with the words nearest to them, or nearest to what makes
up an inch, so the proportion of two sizes is off by a rounding for each of them. With the product
and the quotient, a conversion between different units is within four roundings of the value times
the exact proportion, as long as nothing overflows or becomes subnormal.
-/

namespace CssValues

open Convertible UnitFamily LawfulUnitFamily

/-! ## Sizes by definition -/

/-- The sizes of the units of time, in milliseconds. -/
def TimeUnit.milliseconds : TimeUnit → ℚ
  | .s => 1000
  | .ms => 1

/-- The sizes of the units of frequency, in hertz. -/
def FrequencyUnit.hertz : FrequencyUnit → ℚ
  | .hz => 1
  | .khz => 1000

/-- The sizes of the units of resolution, in dots per inch. -/
def ResolutionUnit.dotsPerInch : ResolutionUnit → ℚ
  | .dpi => 1
  | .dpcm => 2.54
  | .dppx | .x => 96

/-- The sizes of the absolute units of length, in pixels. The other units have none. -/
def LengthUnit.pixels : LengthUnit → ℚ
  | .px => 1
  | .inches => 96
  | .cm => 96 / 2.54
  | .mm => 96 / 25.4
  | .q => 96 / 101.6
  | .pt => 4 / 3
  | .pc => 16
  | _ => 0

/-- The sizes of the units of angle, in degrees. -/
noncomputable def AngleUnit.degrees : AngleUnit → ℝ
  | .deg => 1
  | .grad => 0.9
  | .rad => 180 / Real.pi
  | .turn => 360

/-- The sizes that the units of a family have by definition, in one of the units. -/
class DocumentedSizes (U : Type) where
  documentedSize : U → ℝ

open DocumentedSizes

noncomputable instance : DocumentedSizes TimeUnit := ⟨fun unit => unit.milliseconds⟩

noncomputable instance : DocumentedSizes FrequencyUnit := ⟨fun unit => unit.hertz⟩

noncomputable instance : DocumentedSizes ResolutionUnit := ⟨fun unit => unit.dotsPerInch⟩

noncomputable instance : DocumentedSizes LengthUnit := ⟨fun unit => unit.pixels⟩

noncomputable instance : DocumentedSizes AngleUnit := ⟨AngleUnit.degrees⟩

/-! ## Numbers that are close -/

/-- Neither number is more than one rounding above the other. -/
def IsClose (x y : ℝ) : Prop := x ≤ (1 + unitRoundoff) * y ∧ y ≤ (1 + unitRoundoff) * x

/-- Numbers one rounding above positive ones are positive. -/
theorem one_add_unitRoundoff_pos : (0 : ℝ) < 1 + unitRoundoff := by
  rw [unitRoundoff]
  norm_num

/-- The relative error of two roundings is not negative. -/
theorem two_roundings_nonneg : (0 : ℝ) ≤ (1 + unitRoundoff) ^ 2 - 1 := by
  rw [unitRoundoff]
  norm_num

namespace IsClose

variable {x y x' y' : ℝ}

/-- Being close does not depend on the order. -/
theorem symm (h : IsClose x y) : IsClose y x := ⟨h.2, h.1⟩

/-- What is close to a positive number is positive. -/
theorem pos (h : IsClose x y) (hx : 0 < x) : 0 < y :=
  pos_of_mul_pos_right (hx.trans_le h.1) one_add_unitRoundoff_pos.le

/-- The quotient of two numbers is at most two roundings above that of numbers close to them. -/
theorem div_le_div (h : IsClose x y) (h' : IsClose x' y') (hx : 0 < x) (hx' : 0 < x') :
    x / x' ≤ (1 + unitRoundoff) ^ 2 * (y / y') := by
  have hy' := h'.pos hx'
  have hdivisor : y' / (1 + unitRoundoff) ≤ x' := (div_le_iff₀' one_add_unitRoundoff_pos).mpr h'.2
  calc x / x'
      ≤ (1 + unitRoundoff) * y / x' := div_le_div_of_nonneg_right h.1 hx'.le
    _ ≤ (1 + unitRoundoff) * y / (y' / (1 + unitRoundoff)) :=
      div_le_div_of_nonneg_left (mul_pos one_add_unitRoundoff_pos (h.pos hx)).le
        (div_pos hy' one_add_unitRoundoff_pos) hdivisor
    _ = (1 + unitRoundoff) ^ 2 * (y / y') := by field_simp

/-- The quotient of two numbers differs from that of numbers close to them by the relative error of
two roundings. -/
theorem abs_div_sub_le (h : IsClose x y) (h' : IsClose x' y') (hx : 0 < x) (hx' : 0 < x') :
    |x / x' - y / y'| ≤ y / y' * ((1 + unitRoundoff) ^ 2 - 1) := by
  have habove := h.div_le_div h' hx hx'
  have hbelow := h.symm.div_le_div h'.symm (h.pos hx) (h'.pos hx')
  rcases le_total (y / y') (x / x') with hle | hle
  · rw [abs_of_nonneg (sub_nonneg.mpr hle)]
    linarith
  · have hscaled := mul_le_mul_of_nonneg_right hle two_roundings_nonneg
    rw [abs_sub_comm, abs_of_nonneg (sub_nonneg.mpr hle)]
    linarith

end IsClose

/-- The relative errors of a factor and of the product with it compound. -/
theorem abs_sub_mul_le {x y c d e : ℝ} (hd : 0 ≤ d) (he : 0 ≤ e)
    (hproduct : |y - x * c| ≤ |x * c| * e) (hfactor : |c - d| ≤ d * e) :
    |y - x * d| ≤ |x * d| * ((1 + e) ^ 2 - 1) := by
  have hc : |c| ≤ d * (1 + e) := by
    have hsub := abs_sub_abs_le_abs_sub c d
    rw [abs_of_nonneg hd] at hsub
    linarith
  have hsplit : y - x * d = (y - x * c) + x * (c - d) := by ring
  calc |y - x * d|
      ≤ |y - x * c| + |x| * |c - d| := by
        rw [hsplit, ← abs_mul]
        exact abs_add_le _ _
    _ ≤ |x| * |c| * e + |x| * (d * e) := by
        rw [abs_mul] at hproduct
        exact add_le_add hproduct (mul_le_mul_of_nonneg_left hfactor (abs_nonneg x))
    _ ≤ |x| * (d * (1 + e)) * e + |x| * (d * e) := by
        have hscaled := mul_le_mul_of_nonneg_left hc (abs_nonneg x)
        exact add_le_add_left (mul_le_mul_of_nonneg_right hscaled he) _
    _ = |x * d| * ((1 + e) ^ 2 - 1) := by
        rw [abs_mul, abs_of_nonneg hd]
        ring

/-! ## Conversions -/

section Conversion

variable (U : Type) [UnitFamily U] [LawfulUnitFamily U] [DocumentedSizes U]

/-- What a conversion computes with are the sizes of the units by definition, in another unit and
within one rounding. -/
def KeepsDocumentedSizes : Prop :=
  ∃ scale : ℝ, 0 < scale ∧
    ∀ unit : U, IsSized unit → IsClose (scale * size unit) (documentedSize unit)

variable {U}

/-- The proportion of two sizes is that of the sizes by definition, within two roundings. -/
theorem KeepsDocumentedSizes.abs_proportion_sub_le (h : KeepsDocumentedSizes U) {source target : U}
    (hsource : IsSized source) (htarget : IsSized target) :
    0 < documentedSize source / documentedSize target ∧
      |(size source / size target : ℝ) - documentedSize source / documentedSize target| ≤
        documentedSize source / documentedSize target * ((1 + unitRoundoff) ^ 2 - 1) := by
  obtain ⟨scale, hscale, hclose⟩ := h
  have hpos {unit : U} (h : IsSized unit) : 0 < scale * size unit :=
    mul_pos hscale (Rat.cast_pos.mpr (size_pos h))
  have herror :=
    (hclose source hsource).abs_div_sub_le (hclose target htarget) (hpos hsource) (hpos htarget)
  rw [mul_div_mul_left _ _ hscale.ne'] at herror
  exact ⟨div_pos ((hclose source hsource).pos (hpos hsource))
    ((hclose target htarget).pos (hpos htarget)), herror⟩

end Conversion

/-- Every regular conversion of a finite value between units with sizes gives the value times the
proportion of the sizes by definition, within four roundings. -/
def ConvertsAsDocumented (Q : Type) {U : Type} [Convertible Q U] [UnitFamily U]
    [DocumentedSizes U] : Prop :=
  ∀ (x : Q) (unit : U), IsSized (toDimension x).unit → IsSized unit → ConvertsRegularly x unit →
    (toDimension x).value.IsFinite →
    ∃ y, convert? x unit = some y ∧ (toDimension y).unit = unit ∧
      (toDimension y).value.IsFinite ∧
      let exact : ℝ := (toDimension x).value.toRat *
        (documentedSize (toDimension x).unit / documentedSize unit)
      |(toDimension y).value.toRat - exact| ≤ |exact| * ((1 + unitRoundoff) ^ 4 - 1)

/-- A family that keeps the documented sizes converts by them: two roundings are those of the sizes,
and two those of the product and the quotient. -/
theorem convertsAsDocumented (Q : Type) {U : Type} [Convertible Q U] [UnitFamily U]
    [LawfulUnitFamily U] [LawfulConvertible Q] [DocumentedSizes U] (h : KeepsDocumentedSizes U) :
    ConvertsAsDocumented Q := by
  intro x unit hsource htarget hregular hfinite
  set source := (toDimension x).unit
  obtain ⟨y, hy, rfl, htracks⟩ := exists_convert? hsource htarget hregular
  refine ⟨y, hy, rfl, htracks.isFinite hfinite, ?_⟩
  obtain ⟨hpos, hproportion⟩ := h.abs_proportion_sub_le hsource htarget
  have hproduct : |((toDimension y).value.toRat -
        (toDimension x).value.toRat * (size source / size (toDimension y).unit) : ℝ)| ≤
      |((toDimension x).value.toRat * (size source / size (toDimension y).unit) : ℝ)| *
        ((1 + unitRoundoff) ^ 2 - 1) := by
    exact_mod_cast htracks.abs_toRat_sub_le hsource htarget hfinite
  have hcompound : (1 + ((1 + unitRoundoff) ^ 2 - 1) : ℝ) ^ 2 = (1 + unitRoundoff) ^ 4 := by ring
  have hbound := abs_sub_mul_le hpos.le two_roundings_nonneg hproduct hproportion
  rwa [hcompound] at hbound

/-! ## The sizes of the families -/

/-- Rational numbers are compared as they are. -/
theorem IsClose.of_rat {x y : ℚ}
    (h : x ≤ (1 + unitRoundoff) * y ∧ y ≤ (1 + unitRoundoff) * x) : IsClose x y :=
  ⟨by exact_mod_cast h.1, by exact_mod_cast h.2⟩

/-- A family in which every unit has a size keeps the documented ones if they are close to it. -/
theorem KeepsDocumentedSizes.of_linear {U : Type} [LinearUnit U] [LawfulUnitFamily U]
    [DocumentedSizes U] (hsize : ∀ unit : U, size unit = (LinearUnit.factor unit).units)
    (hclose : ∀ unit : U, IsClose (LinearUnit.factor unit).toRat (documentedSize unit)) :
    KeepsDocumentedSizes U := by
  refine ⟨(1 / Binary64.unitsPerOne : ℚ), ?_, fun unit _ => ?_⟩
  · exact Rat.cast_pos.mpr (one_div_pos.mpr Binary64.cast_unitsPerOne_pos)
  · have hunit : IsUnitSize (multiplier unit unit) := isUnitSize_multiplier trivial trivial
    have hsign : (LinearUnit.factor unit).negative = false := hunit.negative_eq
    rw [hsize, ← Rat.cast_mul, one_div_mul_eq_div, ← Binary64.toRat_of_negative_eq_false hsign]
    exact hclose unit

/-- Times keep their sizes exactly. -/
theorem keepsDocumentedSizes_time : KeepsDocumentedSizes TimeUnit :=
  .of_linear (fun _ => rfl) fun unit => .of_rat (by cases unit <;> decide +kernel)

/-- Frequencies keep their sizes exactly. -/
theorem keepsDocumentedSizes_frequency : KeepsDocumentedSizes FrequencyUnit :=
  .of_linear (fun _ => rfl) fun unit => .of_rat (by cases unit <;> decide +kernel)

/-- Resolutions keep their sizes, of which that of a dot per centimetre is rounded. -/
theorem keepsDocumentedSizes_resolution : KeepsDocumentedSizes ResolutionUnit :=
  .of_linear (fun _ => rfl) fun unit => .of_rat (by cases unit <;> decide +kernel)

/-- The size of a radian is close to the exact one, by the first digits of `π`. -/
theorem isClose_radian : IsClose (LinearUnit.factor AngleUnit.rad).toRat (180 / Real.pi) := by
  have hsize : 0 ≤ (LinearUnit.factor AngleUnit.rad).toRat ∧
      (LinearUnit.factor AngleUnit.rad).toRat * 3.14159265358979323847 ≤
        (1 + unitRoundoff) * 180 ∧
      180 ≤ (1 + unitRoundoff) * (LinearUnit.factor AngleUnit.rad).toRat *
        3.14159265358979323846 := by
    decide +kernel
  generalize (LinearUnit.factor AngleUnit.rad).toRat = radian at *
  obtain ⟨hnonneg, habove, hbelow⟩ := hsize
  replace hnonneg := (Rat.cast_le (K := ℝ)).mpr hnonneg
  replace habove := (Rat.cast_le (K := ℝ)).mpr habove
  replace hbelow := (Rat.cast_le (K := ℝ)).mpr hbelow
  push_cast at hnonneg habove hbelow
  constructor
  · rw [← mul_div_assoc, le_div_iff₀ Real.pi_pos]
    exact (mul_le_mul_of_nonneg_left Real.pi_lt_d20.le hnonneg).trans habove
  · rw [div_le_iff₀ Real.pi_pos]
    exact hbelow.trans (mul_le_mul_of_nonneg_left Real.pi_gt_d20.le
      (mul_nonneg one_add_unitRoundoff_pos.le hnonneg))

/-- Angles keep their sizes, of which those of a gradian and a radian are rounded. -/
theorem keepsDocumentedSizes_angle : KeepsDocumentedSizes AngleUnit := by
  refine .of_linear (fun _ => rfl) fun unit => ?_
  have hrational {d : ℚ} (hd : unit.degrees = d)
      (h : (LinearUnit.factor unit).toRat ≤ (1 + unitRoundoff) * d ∧
        d ≤ (1 + unitRoundoff) * (LinearUnit.factor unit).toRat) :
      IsClose (LinearUnit.factor unit).toRat unit.degrees := by
    rw [hd]
    exact .of_rat h
  cases unit with
  | deg => exact hrational (d := 1) (by norm_num [AngleUnit.degrees]) (by decide +kernel)
  | grad => exact hrational (d := 0.9) (by norm_num [AngleUnit.degrees]) (by decide +kernel)
  | rad => exact isClose_radian
  | turn => exact hrational (d := 360) (by norm_num [AngleUnit.degrees]) (by decide +kernel)

/-- The number of pixels in an inch over that of the unit is the size of the unit in pixels. -/
theorem LengthUnit.isClose_pixels {unit : LengthUnit} (h : unit.isAbsolute = true) :
    IsClose (96 / (unit.perInch?.getD 0).toRat : ℚ) unit.pixels := by
  apply IsClose.of_rat
  cases unit with
  | px | cm | mm | q | inches | pt | pc => decide +kernel
  | _ => cases h

/-- The absolute lengths have their sizes in pixels. -/
theorem keepsDocumentedSizes_length : KeepsDocumentedSizes LengthUnit := by
  have hone := Binary64.cast_unitsPerOne_pos
  refine ⟨(96 * Binary64.unitsPerOne : ℚ), ?_, fun unit hunit => ?_⟩
  · exact Rat.cast_pos.mpr (mul_pos (by norm_num) hone)
  · have hsign := (LengthUnit.isUnitSize_perInch hunit).negative_eq
    have hpixels : 96 * Binary64.unitsPerOne * size unit = 96 / (unit.perInch?.getD 0).toRat := by
      rw [Binary64.toRat_of_negative_eq_false hsign, div_div_eq_mul_div, div_eq_mul_one_div]
      rfl
    rw [← Rat.cast_mul, hpixels]
    exact LengthUnit.isClose_pixels hunit

/-- In every family a conversion multiplies by the documented proportion of the units, within four
roundings. -/
theorem conversions_have_documented_sizes :
    ConvertsAsDocumented Time ∧ ConvertsAsDocumented Frequency ∧ ConvertsAsDocumented Angle ∧
      ConvertsAsDocumented Resolution ∧ ConvertsAsDocumented Length :=
  ⟨convertsAsDocumented _ keepsDocumentedSizes_time,
    convertsAsDocumented _ keepsDocumentedSizes_frequency,
    convertsAsDocumented _ keepsDocumentedSizes_angle,
    convertsAsDocumented _ keepsDocumentedSizes_resolution,
    convertsAsDocumented _ keepsDocumentedSizes_length⟩

example : (Length.inches 1).convert? .cm = some (Length.cm 2.54) := by decide +kernel

end CssValues
