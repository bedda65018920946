/-!
# Texts up to the case of ASCII letters

Names in style sheets are compared without regard to the case of the letters `a` to `z`. All other
characters, letters beyond ASCII included, are equal to themselves alone.
-/

namespace CssValues

/-- The texts agree once their ASCII letters are in lower case. -/
def sameUpToCase (text other : List Char) : Bool :=
  text.map Char.toLower == other.map Char.toLower

/-- Two texts are the same up to case when their lower cases are equal. -/
theorem sameUpToCase_iff {text other : List Char} :
    sameUpToCase text other = true ↔ text.map Char.toLower = other.map Char.toLower :=
  beq_iff_eq

end CssValues
