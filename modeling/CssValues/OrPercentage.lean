import CssValues.Building

/-!
# Values or percentages

Many places of a style sheet take a length or a percentage, and others do so for angles, numbers and
times. A bare literal is never a percentage: it is a value in the default unit of its type.
-/

namespace CssValues

/-- A value or a percentage. -/
inductive OrPercentage (α : Type) where
  | value (value : α)
  | percentage (percentage : Percentage)
deriving DecidableEq, BEq

/-- Types whose values can be written as bare literals, in a default unit. -/
class OfLiteral (α : Type) where
  /-- The value of a literal. -/
  ofLiteral : Binary64 → α

export OfLiteral (ofLiteral)

/-- Bare lengths are pixels. -/
instance : OfLiteral Length := ⟨Length.px⟩

/-- Bare angles are degrees. -/
instance : OfLiteral Angle := ⟨Angle.deg⟩

instance : OfLiteral Number := ⟨fun value => ⟨value⟩⟩

/-- Bare times are seconds. -/
instance : OfLiteral Time := ⟨Time.s⟩

/-- A length or a percentage. -/
abbrev LengthPercentage := OrPercentage Length

/-- An angle or a percentage. -/
abbrev AnglePercentage := OrPercentage Angle

/-- A number or a percentage. -/
abbrev NumberPercentage := OrPercentage Number

/-- A time or a percentage. -/
abbrev TimePercentage := OrPercentage Time

namespace OrPercentage

variable {α : Type}

/-- The percentage, if it is one. -/
def percentage? : OrPercentage α → Option Percentage
  | .value _ => none
  | .percentage p => some p

/-- The value, if it is not a percentage. -/
def value? : OrPercentage α → Option α
  | .value x => some x
  | .percentage _ => none

/-- It is a percentage. -/
def isPercentage (x : OrPercentage α) : Bool := x.percentage?.isSome

instance [OfLiteral α] : OfLiteral (OrPercentage α) := ⟨fun literal => .value (ofLiteral literal)⟩

/-- The value of a whole number that is written as a literal. -/
def ofInt [OfLiteral α] (n : Int) : OrPercentage α := .value (ofLiteral (Binary64.ofInt n))

instance [CssText α] : CssText (OrPercentage α) where
  cssText
    | .value x => cssText x
    | .percentage p => cssText p

instance : OfPercentage (OrPercentage α) := ⟨percentage⟩
instance : OfLength LengthPercentage := ⟨value⟩
instance : OfAngle AnglePercentage := ⟨value⟩
instance : OfNumber NumberPercentage := ⟨value⟩
instance : OfTime TimePercentage := ⟨value⟩

end OrPercentage

instance : Inhabited LengthPercentage := ⟨.value Length.zero⟩

end CssValues
