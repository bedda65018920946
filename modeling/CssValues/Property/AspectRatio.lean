import CssValues.Keyword.Global
import CssValues.Ratio.Basic

/-!
# Aspect ratios

The values of `aspect-ratio`.
-/

namespace CssValues

/-- The preferred shape of a box. -/
inductive AspectRatio where
  | auto
  | ratio (ratio : Ratio)
  /-- The ratio, unless the content has one of its own. -/
  | autoRatio (ratio : Ratio)
  | global (keyword : Global)
deriving DecidableEq, BEq

namespace AspectRatio

instance : CssText AspectRatio where
  cssText
    | auto => "auto"
    | ratio shape => cssText shape
    | autoRatio shape => "auto " ++ cssText shape
    | global keyword => cssText keyword

instance : OfGlobal AspectRatio := ⟨global⟩

end AspectRatio

end CssValues
