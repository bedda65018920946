import CssValues.Vocabulary

/-!
# Styles of lines

The keywords for the lines of borders and outlines.
-/

namespace CssValues

/-- The styles of a line. -/
inductive LineStyle where
  | none
  | hidden
  | dotted
  | dashed
  | solid
  | double
  | groove
  | ridge
  | inset
  | outset
deriving DecidableEq

instance : Inhabited LineStyle := ⟨.none⟩

instance : Vocabulary LineStyle where
  all := [.none, .hidden, .dotted, .dashed, .solid, .double, .groove, .ridge, .inset, .outset]
  token
    | .none => "none"
    | .hidden => "hidden"
    | .dotted => "dotted"
    | .dashed => "dashed"
    | .solid => "solid"
    | .double => "double"
    | .groove => "groove"
    | .ridge => "ridge"
    | .inset => "inset"
    | .outset => "outset"

end CssValues
