import CssValues.NumericText
import CssValues.Vocabulary

/-!
# Dimensions

A `Dimension` is a value with a unit of some family. This module holds what no family's conversion
rules touch: the text, the order within one unit, and scaling. Two dimensions are equal only if
their units are, so one inch and ninety-six pixels differ.
-/

namespace CssValues

/-- A value with a unit. -/
structure Dimension (U : Type) where
  value : Binary64
  unit : U
deriving DecidableEq, BEq

instance {U : Type} [Vocabulary U] : CssText (Dimension U) :=
  ⟨fun x => dimensionText x.value (Vocabulary.token x.unit)⟩

namespace Dimension

variable {U : Type}

/-- Order two dimensions of one unit; those of different units are not ordered. -/
def compare? [DecidableEq U] (x y : Dimension U) : Option Ordering :=
  if x.unit = y.unit then x.value.compare? y.value else none

instance : Neg (Dimension U) := ⟨fun x => ⟨-x.value, x.unit⟩⟩

/-- Scaling by a plain value. -/
instance : HMul (Dimension U) Binary64 (Dimension U) :=
  ⟨fun x factor => ⟨x.value * factor, x.unit⟩⟩

/-- Scaling by the inverse of a plain value. -/
instance : HDiv (Dimension U) Binary64 (Dimension U) :=
  ⟨fun x divisor => ⟨x.value / divisor, x.unit⟩⟩

end Dimension

end CssValues
