import CssValues.Building
import CssValues.Keyword.Global

/-!
# Rotations

The values of `rotate`.
-/

namespace CssValues

/-- How far an element is turned. -/
inductive Rotation where
  | none
  | angle (angle : Angle)
  | global (keyword : Global)
deriving DecidableEq, BEq

namespace Rotation

instance : CssText Rotation where
  cssText
    | none => "none"
    | angle turn => cssText turn
    | global keyword => cssText keyword

instance : OfAngle Rotation := ⟨angle⟩
instance : OfGlobal Rotation := ⟨global⟩

end Rotation

end CssValues
