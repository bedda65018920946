import CssValues.Property.Basic

/-!
# Declarations

A declaration keeps the name of a property and the text of its value. It can be made important,
which is written after the value.
-/

namespace CssValues

/-- A name, the text of a value, and whether the value is important. -/
structure Declaration where
  property : String
  value : String
  important : Bool := false
deriving DecidableEq

namespace Declaration

/-- The declaration of a value under any name. -/
def of {α : Type} [CssText α] (property : String) (value : α) : Declaration :=
  { property, value := cssText value }

/-- The same declaration, important. -/
def makeImportant (d : Declaration) : Declaration := { d with important := true }

instance : CssText Declaration where
  cssText d :=
    d.property ++ ": " ++ d.value ++ (if d.important then " !important" else "") ++ ";"

end Declaration

/-- The declaration of a property, under its own name. -/
def Property.declaration {name : PropertyName} (p : Property name) : Declaration :=
  Declaration.of (Vocabulary.token name) p

end CssValues
