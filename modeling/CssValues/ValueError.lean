import CssValues.NumericText

/-!
# Values that cannot be built

Only the types that guard an invariant refuse their parts. Conversion, arithmetic and writing never
fail.
-/

namespace CssValues

/-- Why a value was not built, with the numbers that were refused. -/
inductive ValueError where
  /-- A resolution below zero, or not a number. -/
  | negativeResolution (value : Binary64)
  /-- A ratio with a part that is not both finite and above zero. -/
  | malformedRatio (width height : Binary64)
deriving DecidableEq

namespace ValueError

/-- The message of an error. -/
def message : ValueError → String
  | negativeResolution value =>
    "invalid value " ++ messageText value ++ ": resolution must not be negative"
  | malformedRatio width height =>
    "malformed ratio " ++ messageText width ++ " / " ++ messageText height ++
      ": components must be finite and positive"

end ValueError

end CssValues
