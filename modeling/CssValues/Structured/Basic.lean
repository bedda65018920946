import CssValues.Structured.Tree
import CssValues.ValueError
import CssValues.Vocabulary

/-!
# The structured form

Types with a structured form are written as trees and read back from them. Reading fails in two
ways: the tree does not have the shape of the type, or it has and the parts are refused by the
type's own check. The shape comes first, so a tree with both faults has the wrong shape.
-/

namespace CssValues

/-- Why a tree was not read. -/
inductive DecodeError where
  /-- The tree does not have the shape of the type. -/
  | shape
  /-- The parts have the right types, and the value refuses them. -/
  | refused (error : ValueError)
deriving DecidableEq

/-- Types with a structured form. -/
class Structured (α : Type) where
  /-- The tree of a value. -/
  encode : α → Tree
  /-- The value of a tree. -/
  decode : Tree → Except DecodeError α

export Structured (encode decode)

namespace Tree

/-- The values that two fields hold. -/
def decodePair {α β : Type} [Structured α] [Structured β] (first second : String) (tree : Tree) :
    Except DecodeError (α × β) :=
  match tree.pair? first second with
  | some (content, other) => do return (← decode content, ← decode other)
  | none => .error .shape

end Tree

/-- A checked value, as the result of reading. -/
def DecodeError.ofCheck {α : Type} (checked : Except ValueError α) : Except DecodeError α :=
  checked.mapError .refused

/-- The numbers of the structured form are finite. Any other value is written as null, and no number
is read from that. -/
instance : Structured Binary64 where
  encode x := if x.IsFinite then .number x else .null
  decode
    | .number value => .ok value
    | _ => .error .shape

/-- Keywords and units are their exact tokens. Like any name without content, a token can also be
the one field of a record, over null. -/
instance {α : Type} [Vocabulary α] : Structured α where
  encode member := .text (Vocabulary.token member)
  decode
    | .text token | .alternative token .null =>
      match Vocabulary.ofToken? token with
      | some member => .ok member
      | none => .error .shape
    | _ => .error .shape

/-- Lists are lists of trees. -/
instance {α : Type} [Structured α] : Structured (List α) where
  encode items := .list (items.map encode)
  decode
    | .list items => items.mapM decode
    | _ => .error .shape

/-- Optional content is null when absent. -/
instance {α : Type} [Structured α] : Structured (Option α) where
  encode
    | some content => encode content
    | none => .null
  decode
    | .null => .ok none
    | tree => some <$> decode tree

end CssValues
