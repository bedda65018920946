import CssValues.CssText
import CssValues.Text.AsciiCase

/-!
# Closed sets of keywords and units

A vocabulary lists all its members in order and gives each its token. Text from a style sheet is
looked up without regard to ASCII case; a written-out token is found again exactly.
-/

namespace CssValues

/-- A closed, ordered set whose members are written as tokens. -/
class Vocabulary (α : Type) where
  /-- Every member, in order. -/
  all : List α
  /-- The token of a member. -/
  token : α → String

namespace Vocabulary

variable {α : Type} [Vocabulary α]

/-- The first member whose token is the text, up to ASCII case. -/
def ofText? (text : String) : Option α :=
  all.find? fun member => sameUpToCase (token member).toList text.toList

/-- The first member whose token is exactly the text. -/
def ofToken? (text : String) : Option α :=
  all.find? fun member => token member == text

end Vocabulary

/-- Keywords and units are written as their tokens. -/
instance {α : Type} [Vocabulary α] : CssText α := ⟨Vocabulary.token⟩

end CssValues
