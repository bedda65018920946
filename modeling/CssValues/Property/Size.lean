import CssValues.Keyword.Global
import CssValues.MathExpr.Basic
import CssValues.OrPercentage

/-!
# Sizes

The values of `width` and `height`.
-/

namespace CssValues

/-- The extent of a box in one direction. -/
inductive Size where
  | auto
  | lengthPercentage (value : LengthPercentage)
  | minContent
  | maxContent
  /-- The extent of the content, up to a limit if there is one. -/
  | fitContent (limit : Option LengthPercentage)
  | math (expression : MathExpr)
  | global (keyword : Global)
deriving DecidableEq, BEq

namespace Size

instance : Inhabited Size := ⟨auto⟩

instance : CssText Size where
  cssText
    | auto => "auto"
    | lengthPercentage value => cssText value
    | minContent => "min-content"
    | maxContent => "max-content"
    | fitContent none => "fit-content"
    | fitContent (some limit) => "fit-content(" ++ cssText limit ++ ")"
    | math expression => cssText expression
    | global keyword => cssText keyword

instance : OfLength Size := ⟨fun length => lengthPercentage (.value length)⟩
instance : OfPercentage Size := ⟨fun percentage => lengthPercentage (.percentage percentage)⟩
instance : OfGlobal Size := ⟨global⟩

end Size

end CssValues
