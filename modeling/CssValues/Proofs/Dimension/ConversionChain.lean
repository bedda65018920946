import CssValues.Dimension.Angle
import CssValues.Dimension.Frequency
import CssValues.Dimension.Length
import CssValues.Dimension.Resolution
import CssValues.Dimension.Time
import CssValues.Proofs.Dimension.Rescale

/-!
# Chains of conversions

Along a chain of conversions the sizes of the units cancel: whatever units it passes, a chain that
comes back to the unit it started from gives the value it started with, within two roundings for
each conversion. This holds as long as no product and no quotient overflows or becomes subnormal.
-/

namespace CssValues

/-! ## Families of units -/

/-- A family of units of which some have a size. A conversion between those multiplies by one size
and divides by another. -/
class UnitFamily (U : Type) where
  IsSized : U → Prop
  /-- What a value is multiplied by on its way from the first unit to the second. -/
  multiplier : U → U → Binary64
  /-- What that product is divided by. -/
  divisor : U → U → Binary64

open UnitFamily

/-- The sizes of a family fit together: what a conversion multiplies and divides by are in the
proportion of the two units. -/
class LawfulUnitFamily (U : Type) [UnitFamily U] where
  /-- The size of a unit, exactly. -/
  size : U → ℚ
  size_pos : ∀ {unit : U}, IsSized unit → 0 < size unit
  isUnitSize_multiplier : ∀ {source target : U}, IsSized source → IsSized target →
    IsUnitSize (multiplier source target)
  isUnitSize_divisor : ∀ {source target : U}, IsSized source → IsSized target →
    IsUnitSize (divisor source target)
  multiplier_mul_size : ∀ {source target : U}, IsSized source → IsSized target →
    (multiplier source target).units * size target = (divisor source target).units * size source

open LawfulUnitFamily

/-- In most families each unit has a size, of which the first is the multiplier and the second the
divisor. -/
instance {U : Type} [LinearUnit U] : UnitFamily U where
  IsSized _ := True
  multiplier source _ := LinearUnit.factor source
  divisor _ target := LinearUnit.factor target

/-- Of the lengths the absolute ones have a size. A conversion multiplies by the number of the
second unit in an inch and divides by that of the first. -/
instance : UnitFamily LengthUnit where
  IsSized unit := unit.isAbsolute = true
  multiplier _ target := target.perInch?.getD 0
  divisor source _ := source.perInch?.getD 0

/-- Sizes in the common unit. -/
abbrev LawfulUnitFamily.ofLinear {U : Type} [LinearUnit U]
    (hsize : ∀ unit : U, IsUnitSize (LinearUnit.factor unit)) : LawfulUnitFamily U where
  size unit := (LinearUnit.factor unit).units
  size_pos _ := Nat.cast_pos.mpr (hsize _).units_pos
  isUnitSize_multiplier _ _ := hsize _
  isUnitSize_divisor _ _ := hsize _
  multiplier_mul_size _ _ := mul_comm _ _

instance : LawfulUnitFamily TimeUnit :=
  .ofLinear fun unit => by cases unit <;> decide +kernel

instance : LawfulUnitFamily FrequencyUnit :=
  .ofLinear fun unit => by cases unit <;> decide +kernel

instance : LawfulUnitFamily AngleUnit :=
  .ofLinear fun unit => by cases unit <;> decide +kernel

instance : LawfulUnitFamily ResolutionUnit :=
  .ofLinear fun unit => by cases unit <;> decide +kernel

/-- The numbers of the absolute units in an inch are sizes that rounding cannot hurt. -/
theorem LengthUnit.isUnitSize_perInch {unit : LengthUnit} (h : unit.isAbsolute = true) :
    IsUnitSize (unit.perInch?.getD 0) := by
  cases unit with
  | px | cm | mm | q | inches | pt | pc => decide +kernel
  | _ => cases h

/-- Sizes in inches. -/
instance : LawfulUnitFamily LengthUnit where
  size unit := 1 / (unit.perInch?.getD 0).units
  size_pos h := one_div_pos.mpr (Nat.cast_pos.mpr (LengthUnit.isUnitSize_perInch h).units_pos)
  isUnitSize_multiplier _ htarget := LengthUnit.isUnitSize_perInch htarget
  isUnitSize_divisor hsource _ := LengthUnit.isUnitSize_perInch hsource
  multiplier_mul_size hsource htarget := by
    have hne {unit : LengthUnit} (h : unit.isAbsolute = true) :
        ((unit.perInch?.getD 0).units : ℚ) ≠ 0 :=
      Nat.cast_ne_zero.mpr (Nat.ne_of_gt (LengthUnit.isUnitSize_perInch h).units_pos)
    change ((LengthUnit.perInch? _).getD 0).units * (1 / _ : ℚ) =
      ((LengthUnit.perInch? _).getD 0).units * (1 / _)
    rw [mul_one_div_cancel (hne htarget), mul_one_div_cancel (hne hsource)]

/-! ## Quantities -/

/-- Values with a unit that convert to other units of their family, where that is defined. -/
class Convertible (Q : Type) (U : outParam Type) where
  toDimension : Q → Dimension U
  convert? : Q → U → Option Q

open Convertible

/-- Conversion to another unit with a size is defined and rescales the value. -/
class LawfulConvertible (Q : Type) {U : outParam Type} [Convertible Q U] [UnitFamily U] :
    Prop where
  convert?_self : ∀ x : Q, convert? x (toDimension x).unit = some x
  convert?_of_ne : ∀ {x : Q} {unit : U}, IsSized (toDimension x).unit → IsSized unit →
    unit ≠ (toDimension x).unit → ∃ y, convert? x unit = some y ∧
      toDimension y = ⟨rescale (toDimension x).value (multiplier (toDimension x).unit unit)
        (divisor (toDimension x).unit unit), unit⟩

section Linear

variable {U : Type} [DecidableEq U] [LinearUnit U]

instance : Convertible (Dimension U) U where
  toDimension x := x
  convert? x unit := some (x.convert unit)

instance : LawfulConvertible (Dimension U) where
  convert?_self x := congrArg some x.convert_self
  convert?_of_ne _ _ hne := ⟨_, rfl, if_neg hne⟩

end Linear

instance : Convertible Resolution ResolutionUnit where
  toDimension r := r.toDimension
  convert? r unit := some (r.convert unit)

instance : LawfulConvertible Resolution where
  convert?_self r := by
    change some (r.convert r.unit) = some r
    simp only [Resolution.convert, Dimension.convert_self]
  convert?_of_ne _ _ hne := ⟨_, rfl, if_neg hne⟩

instance : Convertible Length LengthUnit where
  toDimension x := x
  convert? := Length.convert?

instance : LawfulConvertible Length where
  convert?_self x := if_pos rfl
  convert?_of_ne {x unit} hsource htarget hne := by
    change x.unit.perInch?.isSome = true at hsource
    change unit.perInch?.isSome = true at htarget
    change ∃ y, Length.convert? x unit = some y ∧ y = ⟨rescale x.value (unit.perInch?.getD 0)
      (x.unit.perInch?.getD 0), unit⟩
    obtain ⟨source, hsource⟩ := Option.isSome_iff_exists.mp hsource
    obtain ⟨target, htarget⟩ := Option.isSome_iff_exists.mp htarget
    change unit ≠ x.unit at hne
    refine ⟨_, ?_, rfl⟩
    rw [Length.convert?, if_neg hne, hsource, htarget]
    rfl

/-! ## Chains -/

section Chain

variable {Q U : Type} [Convertible Q U] [UnitFamily U]

/-- The quantity after conversions to one unit after the other, if all of them are defined. -/
def convertAlong? (x : Q) (path : List U) : Option Q := path.foldlM convert? x

/-- Neither the product nor the quotient of a conversion overflows or becomes subnormal. Conversion
to the own unit computes neither, and what is not finite has nothing to lose. -/
def ConvertsRegularly (x : Q) (unit : U) : Prop :=
  unit ≠ (toDimension x).unit → (toDimension x).value.IsFinite →
    ((toDimension x).value * multiplier (toDimension x).unit unit).IsRegular ∧
    (rescale (toDimension x).value (multiplier (toDimension x).unit unit)
      (divisor (toDimension x).unit unit)).IsRegular

/-- No product and no quotient along a chain of conversions overflows or becomes subnormal. -/
def StaysRegular (x : Q) : List U → Prop
  | [] => True
  | unit :: path => ConvertsRegularly x unit ∧ ∀ y ∈ convert? x unit, StaysRegular y path

instance [DecidableEq U] (x : Q) (unit : U) : Decidable (ConvertsRegularly x unit) :=
  inferInstanceAs (Decidable (_ → _ → _ ∧ _))

instance decidableStaysRegular [DecidableEq U] :
    (x : Q) → (path : List U) → Decidable (StaysRegular x path)
  | _, [] => isTrue trivial
  | x, unit :: path =>
    have (y : Q) : Decidable (StaysRegular y path) := decidableStaysRegular y path
    inferInstanceAs (Decidable (_ ∧ ∀ y ∈ convert? x unit, StaysRegular y path))

variable [LawfulUnitFamily U]

/-- A quantity that comes from another by `k` roundings, whatever their units. -/
structure Tracks (k : Nat) (x y : Q) : Prop where
  isNaN : (toDimension x).value.IsNaN → (toDimension y).value.IsNaN
  eq_of_isInfinite : (toDimension x).value.IsInfinite →
    (toDimension y).value = (toDimension x).value
  isFinite : (toDimension x).value.IsFinite → (toDimension y).value.IsFinite
  negative : (toDimension x).value.IsFinite →
    (toDimension y).value.negative = (toDimension x).value.negative
  isWithin : (toDimension x).value.IsFinite →
    IsWithin k ((toDimension y).value.units * size (toDimension y).unit)
      ((toDimension x).value.units * size (toDimension x).unit)

namespace Tracks

variable {j k : Nat} {x y z : Q}

/-- A quantity comes from itself without roundings. -/
theorem refl (x : Q) : Tracks 0 x x :=
  ⟨id, fun _ => rfl, id, fun _ => rfl, fun _ => .refl _⟩

/-- The roundings of two conversions add up. -/
theorem trans (hxy : Tracks j x y) (hyz : Tracks k y z) : Tracks (j + k) x z where
  isNaN hx := hyz.isNaN (hxy.isNaN hx)
  eq_of_isInfinite hx := by
    have hy := hxy.eq_of_isInfinite hx
    exact (hyz.eq_of_isInfinite (hy ▸ hx)).trans hy
  isFinite hx := hyz.isFinite (hxy.isFinite hx)
  negative hx := (hyz.negative (hxy.isFinite hx)).trans (hxy.negative hx)
  isWithin hx := by
    rw [Nat.add_comm]
    exact (hyz.isWithin (hxy.isFinite hx)).trans (hxy.isWithin hx)

/-- The value differs from the exact one, which is the value it comes from times the proportion of
the two units, by the relative error of the roundings. -/
theorem abs_toRat_sub_le (h : Tracks k x y) (hx : IsSized (toDimension x).unit)
    (hy : IsSized (toDimension y).unit) (hfinite : (toDimension x).value.IsFinite) :
    let exact := (toDimension x).value.toRat *
      (size (toDimension x).unit / size (toDimension y).unit)
    |(toDimension y).value.toRat - exact| ≤ |exact| * ((1 + unitRoundoff) ^ k - 1) := by
  have hwithin := h.isWithin hfinite
  rw [← div_mul_cancel₀ (size (toDimension x).unit) (size_pos hy).ne', ← mul_assoc] at hwithin
  exact Binary64.abs_toRat_sub_mul_le (h.negative hfinite)
    (div_pos (size_pos hx) (size_pos hy)).le (hwithin.of_mul_right (size_pos hy))

end Tracks

/-- A regular conversion to another unit costs two roundings. -/
theorem Tracks.of_rescale {x y : Q} {unit : U} (hsource : IsSized (toDimension x).unit)
    (htarget : IsSized unit) (hunit : unit ≠ (toDimension x).unit)
    (hregular : ConvertsRegularly x unit)
    (hy : toDimension y = ⟨rescale (toDimension x).value (multiplier (toDimension x).unit unit)
      (divisor (toDimension x).unit unit), unit⟩) : Tracks 2 x y := by
  have hmultiplier := isUnitSize_multiplier hsource htarget
  have hdivisor := isUnitSize_divisor hsource htarget
  have hacts := actsOnMagnitudes_rescale hmultiplier hdivisor
  constructor
  all_goals rw [hy]
  case isNaN => exact hacts.isNaN
  case eq_of_isInfinite => exact hacts.eq_of_isInfinite
  case isFinite => exact fun hfinite => (hregular hunit hfinite).2.1
  case negative =>
    intro hfinite
    obtain ⟨hproduct, hquotient⟩ := hregular hunit hfinite
    exact (isWithin_rescale hmultiplier hdivisor hproduct hquotient).1
  case isWithin =>
    intro hfinite
    obtain ⟨hproduct, hquotient⟩ := hregular hunit hfinite
    have hwithin := (isWithin_rescale hmultiplier hdivisor hproduct hquotient).2
    -- Over the divisor, the value counts units of the second kind.
    have hpos : (0 : ℚ) < (divisor (toDimension x).unit unit).units :=
      Nat.cast_pos.mpr hdivisor.units_pos
    have hproportion := multiplier_mul_size hsource htarget
    refine IsWithin.of_mul_right hpos ?_
    rw [mul_right_comm, mul_assoc (_ : ℚ) (size _), mul_comm (size (toDimension x).unit),
      ← hproportion, ← mul_assoc]
    exact hwithin.mul_right (size_pos htarget).le

variable [LawfulConvertible Q]

/-- A regular conversion to a unit with a size is defined, and costs at most two roundings. -/
theorem exists_convert? {x : Q} {unit : U} (hsource : IsSized (toDimension x).unit)
    (htarget : IsSized unit) (hregular : ConvertsRegularly x unit) :
    ∃ y, convert? x unit = some y ∧ (toDimension y).unit = unit ∧ Tracks 2 x y := by
  by_cases hunit : unit = (toDimension x).unit
  · refine ⟨x, hunit ▸ LawfulConvertible.convert?_self x, hunit.symm, id, fun _ => rfl, id,
      fun _ => rfl, fun _ => ?_⟩
    exact (IsWithin.refl _).mono (Nat.zero_le 2)
      (mul_nonneg (Nat.cast_nonneg _) (size_pos hsource).le)
  · obtain ⟨y, hy, hdimension⟩ := LawfulConvertible.convert?_of_ne hsource htarget hunit
    exact ⟨y, hy, by rw [hdimension], .of_rescale hsource htarget hunit hregular hdimension⟩

/-- A regular chain of conversions between units with sizes is defined, and costs at most two
roundings for each conversion. -/
theorem exists_convertAlong? {x : Q} {path : List U} (hsource : IsSized (toDimension x).unit)
    (hpath : ∀ unit ∈ path, IsSized unit) (hregular : StaysRegular x path) :
    ∃ y, convertAlong? x path = some y ∧
      (toDimension y).unit = path.getLast?.getD (toDimension x).unit ∧
      Tracks (2 * path.length) x y := by
  induction path generalizing x with
  | nil => exact ⟨x, rfl, rfl, .refl x⟩
  | cons unit path ih =>
    obtain ⟨hhere, hrest⟩ := hregular
    obtain ⟨y, hy, hunit, hxy⟩ := exists_convert? hsource (hpath unit List.mem_cons_self) hhere
    have hsized : IsSized (toDimension y).unit := hunit ▸ hpath unit List.mem_cons_self
    obtain ⟨z, hz, hlast, hyz⟩ :=
      ih hsized (fun unit hmem => hpath unit (List.mem_cons_of_mem _ hmem)) (hrest y hy)
    refine ⟨z, ?_, ?_, ?_⟩
    · rw [convertAlong?, List.foldlM_cons, hy]
      exact hz
    · rw [hlast, hunit, List.getLast?_cons]
      rfl
    · rw [List.length_cons, Nat.mul_add_one, Nat.add_comm]
      exact hxy.trans hyz

end Chain

/-- The value `y` is what `k` roundings may make of `x`: NaN stays NaN, an infinity is kept, and a
finite value changes by no more than the compound relative error. -/
def AgreesWithin (k : Nat) (x y : Binary64) : Prop :=
  (x.IsNaN → y.IsNaN) ∧ (x.IsInfinite → y = x) ∧
    (x.IsFinite → y.IsFinite ∧ |y.toRat - x.toRat| ≤ |x.toRat| * ((1 + unitRoundoff) ^ k - 1))

/-- Every regular chain of conversions between units with sizes that ends in the unit it started
from is defined, and gives back the value it started with within two roundings a conversion. -/
def ReturnsWithinRoundings (Q : Type) {U : Type} [Convertible Q U] [UnitFamily U] : Prop :=
  ∀ (x : Q) (path : List U), (∀ unit ∈ (toDimension x).unit :: path, IsSized unit) →
    (∀ last ∈ path.getLast?, last = (toDimension x).unit) → StaysRegular x path →
    ∃ y, convertAlong? x path = some y ∧ (toDimension y).unit = (toDimension x).unit ∧
      AgreesWithin (2 * path.length) (toDimension x).value (toDimension y).value

/-- In a lawful family, a chain of conversions that comes back costs two roundings a conversion. -/
theorem returnsWithinRoundings (Q : Type) {U : Type} [Convertible Q U] [UnitFamily U]
    [LawfulUnitFamily U] [LawfulConvertible Q] : ReturnsWithinRoundings Q := by
  intro x path hsized hlast hregular
  obtain ⟨hsource, hpath⟩ := List.forall_mem_cons.mp hsized
  obtain ⟨y, hy, hunit, htracks⟩ := exists_convertAlong? hsource hpath hregular
  have hreturn : (toDimension y).unit = (toDimension x).unit := by
    rw [hunit]
    cases hend : path.getLast? with
    | none => rfl
    | some last => exact hlast last hend
  refine ⟨y, hy, hreturn, htracks.isNaN, htracks.eq_of_isInfinite, fun hfinite => ?_⟩
  have herror := htracks.abs_toRat_sub_le hsource (hreturn ▸ hsource) hfinite
  rw [hreturn, div_self (size_pos hsource).ne', mul_one] at herror
  exact ⟨htracks.isFinite hfinite, herror⟩

/-- In every family, chains of conversions that come back to their unit come back to their value,
within two roundings for each conversion. -/
theorem conversion_chains_return :
    ReturnsWithinRoundings Time ∧ ReturnsWithinRoundings Frequency ∧
      ReturnsWithinRoundings Angle ∧ ReturnsWithinRoundings Resolution ∧
      ReturnsWithinRoundings Length :=
  ⟨returnsWithinRoundings _, returnsWithinRoundings _, returnsWithinRoundings _,
    returnsWithinRoundings _, returnsWithinRoundings _⟩

/-- A turn through radians and gradians and back. -/
theorem turn_returns :
    ((∀ unit ∈ [AngleUnit.turn, .rad, .grad, .turn], IsSized unit) ∧
      (∀ last ∈ [AngleUnit.rad, .grad, .turn].getLast?, last = AngleUnit.turn) ∧
      StaysRegular (Angle.turn 1) [AngleUnit.rad, .grad, .turn]) ∧
    ∃ y, convertAlong? (Angle.turn 1) [AngleUnit.rad, .grad, .turn] = some y ∧
      y.unit = .turn ∧ AgreesWithin 6 1 y.value := by
  have hsized : ∀ unit ∈ [AngleUnit.turn, .rad, .grad, .turn], IsSized unit :=
    fun _ _ => trivial
  have hlast : ∀ last ∈ [AngleUnit.rad, .grad, .turn].getLast?, last = AngleUnit.turn := by decide
  have hregular : StaysRegular (Angle.turn 1) [AngleUnit.rad, .grad, .turn] := by decide +kernel
  exact ⟨⟨hsized, hlast, hregular⟩, conversion_chains_return.2.2.1 _ _ hsized hlast hregular⟩

end CssValues
