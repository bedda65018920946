import CssValues.Keyword.Global
import CssValues.MathExpr.Basic
import CssValues.OrPercentage

/-!
# Margins

The values of `margin-top`, `margin-right`, `margin-bottom` and `margin-left`.
-/

namespace CssValues

/-- The space outside one side of a box. -/
inductive Margin where
  | auto
  | lengthPercentage (value : LengthPercentage)
  | math (expression : MathExpr)
  | global (keyword : Global)
deriving DecidableEq, BEq

namespace Margin

/-- No space, in pixels. -/
instance : Inhabited Margin := ⟨lengthPercentage default⟩

instance : CssText Margin where
  cssText
    | auto => "auto"
    | lengthPercentage value => cssText value
    | math expression => cssText expression
    | global keyword => cssText keyword

instance : OfLength Margin := ⟨fun length => lengthPercentage (.value length)⟩
instance : OfPercentage Margin := ⟨fun percentage => lengthPercentage (.percentage percentage)⟩
instance : OfGlobal Margin := ⟨global⟩

end Margin

end CssValues
