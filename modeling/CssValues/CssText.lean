/-!
# Values that have a text in a style sheet

Every value of this library is written in exactly one way, its `cssText`.
-/

namespace CssValues

/-- Values with one text in a style sheet. -/
class CssText (α : Type) where
  /-- The text of a value. -/
  cssText : α → String

export CssText (cssText)

/-- The texts of the values in order, with a comma and a space between neighbours. -/
def commaSeparated {α : Type} [CssText α] (values : List α) : String :=
  ", ".intercalate (values.map cssText)

end CssValues
