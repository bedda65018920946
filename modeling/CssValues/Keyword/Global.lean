import CssValues.Vocabulary

/-!
# Keywords of every property

Each property takes the keywords of this module besides its own values.
-/

namespace CssValues

/-- The keywords that every property takes. -/
inductive Global where
  | inherit
  | initial
  | unset
  | revert
  | revertLayer
deriving DecidableEq

instance : Inhabited Global := ⟨.inherit⟩

instance : Vocabulary Global where
  all := [.inherit, .initial, .unset, .revert, .revertLayer]
  token
    | .inherit => "inherit"
    | .initial => "initial"
    | .unset => "unset"
    | .revert => "revert"
    | .revertLayer => "revert-layer"

/-- Types that hold the keywords of every property. -/
class OfGlobal (α : Type) where
  /-- The value that a keyword is. -/
  ofGlobal : Global → α

export OfGlobal (ofGlobal)

end CssValues
