import CssValues.Building
import CssValues.Keyword.Global

/-!
# Styles of borders

The values of `border-top-style`, `border-right-style`, `border-bottom-style` and
`border-left-style`.
-/

namespace CssValues

/-- The style of one side of a border. -/
inductive BorderLineStyle where
  | style (style : LineStyle)
  | global (keyword : Global)
deriving DecidableEq, BEq

namespace BorderLineStyle

instance : Inhabited BorderLineStyle := ⟨style .none⟩

instance : CssText BorderLineStyle where
  cssText
    | style line => cssText line
    | global keyword => cssText keyword

instance : OfLineStyle BorderLineStyle := ⟨style⟩
instance : OfGlobal BorderLineStyle := ⟨global⟩

end BorderLineStyle

end CssValues
