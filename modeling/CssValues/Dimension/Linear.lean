import CssValues.Binary64.Arithmetic
import CssValues.Dimension.Basic

/-!
# Families of fixed units

In most families each unit has a fixed size, its `factor` in a common unit. Such dimensions convert
into each other freely, and sums and comparisons convert the second operand to the unit of the
first. Conversion multiplies by one factor and divides by the other, and rounds after each step.
-/

namespace CssValues

/-- Unit families in which every unit has a fixed size. -/
class LinearUnit (U : Type) where
  /-- The size of a unit, in a unit common to the family. -/
  factor : U → Binary64
  factor_pos : ∀ unit, 0 < factor unit
  factor_isFinite : ∀ unit, (factor unit).IsFinite

/-- A value counted in another unit, given the sizes of both units. -/
def rescale (value source target : Binary64) : Binary64 := value * source / target

/-- A count that is not negative stays so in another unit. -/
theorem zero_le_rescale {value source target : Binary64} (h : 0 ≤ value)
    (hsource : 0 < source) (hsource_finite : source.IsFinite)
    (htarget : 0 < target) (htarget_finite : target.IsFinite) :
    0 ≤ rescale value source target :=
  Binary64.zero_le_div (Binary64.zero_le_mul h hsource hsource_finite) htarget htarget_finite

namespace Dimension

variable {U : Type} [DecidableEq U] [LinearUnit U]

/-- The dimension in another unit. Conversion to its own unit leaves it as it is. -/
def convert (x : Dimension U) (unit : U) : Dimension U :=
  if unit = x.unit then x
  else ⟨rescale x.value (LinearUnit.factor x.unit) (LinearUnit.factor unit), unit⟩

/-- Order two dimensions after converting the second to the unit of the first. -/
def compareConverted? (x y : Dimension U) : Option Ordering :=
  x.value.compare? (y.convert x.unit).value

/-- The sum, in the unit of the first. -/
instance : Add (Dimension U) := ⟨fun x y => ⟨x.value + (y.convert x.unit).value, x.unit⟩⟩

/-- The difference, in the unit of the first. -/
instance : Sub (Dimension U) := ⟨fun x y => ⟨x.value - (y.convert x.unit).value, x.unit⟩⟩

/-- Conversion to a unit gives a dimension in that unit. -/
@[simp] theorem convert_unit (x : Dimension U) (unit : U) :
    (x.convert unit).unit = unit := by
  unfold convert
  split
  next hunit => exact hunit.symm
  next => rfl

/-- Conversion to the own unit changes nothing. -/
@[simp] theorem convert_self (x : Dimension U) : x.convert x.unit = x := if_pos rfl

/-- Conversion keeps a dimension from being negative. -/
theorem zero_le_convert {x : Dimension U} (h : 0 ≤ x.value) (unit : U) :
    0 ≤ (x.convert unit).value := by
  unfold convert
  split
  · exact h
  · exact zero_le_rescale h (LinearUnit.factor_pos _) (LinearUnit.factor_isFinite _)
      (LinearUnit.factor_pos _) (LinearUnit.factor_isFinite _)

end Dimension

end CssValues
