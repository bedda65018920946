import CssValues.Keyword.Global
import CssValues.OrPercentage

/-!
# Opacities

The values of `opacity`.
-/

namespace CssValues

/-- How opaque an element is. -/
inductive Opacity where
  | numberPercentage (value : NumberPercentage)
  | global (keyword : Global)
deriving DecidableEq, BEq

namespace Opacity

instance : CssText Opacity where
  cssText
    | numberPercentage value => cssText value
    | global keyword => cssText keyword

instance : OfNumber Opacity := ⟨fun number => numberPercentage (.value number)⟩
instance : OfPercentage Opacity := ⟨fun percentage => numberPercentage (.percentage percentage)⟩
instance : OfGlobal Opacity := ⟨global⟩

end Opacity

end CssValues
