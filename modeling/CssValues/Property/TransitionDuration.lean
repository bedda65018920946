import CssValues.Building
import CssValues.Keyword.Global

/-!
# Durations of transitions

The values of `transition-duration`.
-/

namespace CssValues

/-- How long transitions last: one time for each property that changes. -/
inductive TransitionDuration where
  | times (times : List Time)
  | global (keyword : Global)
deriving DecidableEq, BEq

namespace TransitionDuration

instance : CssText TransitionDuration where
  cssText
    | times list => commaSeparated list
    | global keyword => cssText keyword

instance : OfTime TransitionDuration := ⟨fun time => times [time]⟩
instance : OfGlobal TransitionDuration := ⟨global⟩

end TransitionDuration

end CssValues
