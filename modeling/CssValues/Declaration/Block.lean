import CssValues.Declaration.Basic

/-!
# Blocks of declarations

A block keeps its declarations in the order in which they came, repeated ones included, and is
written with one space between neighbours.
-/

namespace CssValues

/-- A list of declarations. -/
structure Block where
  declarations : List Declaration
deriving DecidableEq

namespace Block

/-- The block without declarations. -/
def empty : Block := ⟨[]⟩

/-- The block with a declaration at its end. -/
def push (block : Block) (d : Declaration) : Block := ⟨block.declarations ++ [d]⟩

/-- The block with the declaration of a property at its end. -/
def add {name : PropertyName} (block : Block) (p : Property name) : Block :=
  block.push p.declaration

/-- The block has no declarations. -/
def isEmpty (block : Block) : Bool := block.declarations.isEmpty

instance : CssText Block where
  cssText block := " ".intercalate (block.declarations.map cssText)

/-- The empty block holds nothing. -/
@[simp] theorem declarations_empty : empty.declarations = [] := rfl

/-- A push puts its declaration at the end. -/
@[simp] theorem declarations_push (block : Block) (d : Declaration) :
    (block.push d).declarations = block.declarations ++ [d] := rfl

/-- A property is added as its declaration, at the end. -/
@[simp] theorem declarations_add {name : PropertyName} (block : Block) (p : Property name) :
    (block.add p).declarations = block.declarations ++ [p.declaration] := rfl

end Block

end CssValues
