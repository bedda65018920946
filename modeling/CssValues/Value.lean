import CssValues.Dimension.Frequency
import CssValues.Dimension.Resolution
import CssValues.Keyword.Global
import CssValues.MathExpr.Basic
import CssValues.OrPercentage
import CssValues.Ratio.Basic

/-!
# Values of any type

A `Value` is a value of any type of this library that stands alone in a style sheet. Lists of them
mix types, as the arguments of a math function do.
-/

namespace CssValues

/-- A value of any type. -/
inductive Value where
  | number (value : Number)
  | percentage (value : Percentage)
  | length (value : Length)
  | time (value : Time)
  | frequency (value : Frequency)
  | angle (value : Angle)
  | resolution (value : Resolution)
  | ratio (value : Ratio)
  | math (value : MathExpr)
  | lengthPercentage (value : LengthPercentage)
  | anglePercentage (value : AnglePercentage)
  | numberPercentage (value : NumberPercentage)
  | timePercentage (value : TimePercentage)
  | global (value : Global)
  | lineStyle (value : LineStyle)
deriving DecidableEq

/-- A value is written as it is in its own type. -/
instance : CssText Value where
  cssText
    | .number value => cssText value
    | .percentage value => cssText value
    | .length value => cssText value
    | .time value => cssText value
    | .frequency value => cssText value
    | .angle value => cssText value
    | .resolution value => cssText value
    | .ratio value => cssText value
    | .math value => cssText value
    | .lengthPercentage value => cssText value
    | .anglePercentage value => cssText value
    | .numberPercentage value => cssText value
    | .timePercentage value => cssText value
    | .global value => cssText value
    | .lineStyle value => cssText value

end CssValues
