import CssValues.CssText
import CssValues.NumericText

/-!
# Numbers and percentages

A `Scalar` is a value without a unit. Numbers and percentages are the two kinds of scalar; they
share all arithmetic and differ in their text. Any value is a percentage, below zero and above a
hundred included.
-/

namespace CssValues

/-- The kinds of scalar. -/
inductive ScalarKind where
  | number
  | percentage
deriving DecidableEq

/-- A value without a unit. -/
structure Scalar (kind : ScalarKind) where
  value : Binary64
deriving DecidableEq, BEq

/-- A plain number. -/
abbrev Number := Scalar .number

/-- A number of hundredths. -/
abbrev Percentage := Scalar .percentage

namespace Scalar

variable {kind : ScalarKind}

/-- The scalar of a whole number. -/
def ofInt (n : Int) : Scalar kind := ⟨Binary64.ofInt n⟩

/-- Order two scalars; NaN is ordered with nothing. -/
def compare? (x y : Scalar kind) : Option Ordering := x.value.compare? y.value

/-- The total order of the words, with negative zero first among the zeros and NaN last. -/
def totalCompare (x y : Scalar kind) : Ordering := x.value.totalCompare y.value

instance : Inhabited (Scalar kind) := ⟨⟨0⟩⟩
instance : Neg (Scalar kind) := ⟨fun x => ⟨-x.value⟩⟩
instance : Add (Scalar kind) := ⟨fun x y => ⟨x.value + y.value⟩⟩
instance : Sub (Scalar kind) := ⟨fun x y => ⟨x.value - y.value⟩⟩
instance : Mul (Scalar kind) := ⟨fun x y => ⟨x.value * y.value⟩⟩
instance : Div (Scalar kind) := ⟨fun x y => ⟨x.value / y.value⟩⟩

/-- Scaling by a plain value. -/
instance : HMul (Scalar kind) Binary64 (Scalar kind) := ⟨fun x factor => ⟨x.value * factor⟩⟩

/-- Scaling by the inverse of a plain value. -/
instance : HDiv (Scalar kind) Binary64 (Scalar kind) := ⟨fun x divisor => ⟨x.value / divisor⟩⟩

end Scalar

instance : CssText Number := ⟨fun x => numberText x.value⟩

instance : CssText Percentage := ⟨fun x => dimensionText x.value "%"⟩

namespace Percentage

/-- The percentage with the value of a number: `50` becomes fifty percent. -/
def ofNumber (x : Number) : Percentage := ⟨x.value⟩

/-- The share of one that the percentage stands for: fifty percent is a half. -/
def fraction (x : Percentage) : Binary64 := x.value / 100

end Percentage

end CssValues
