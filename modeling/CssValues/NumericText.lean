import CssValues.Binary64.Arithmetic
import CssValues.Binary64.Shortest

/-!
# The text of numbers and dimensions

A finite number is written as its shortest decimal, with a minus sign if it is below zero, and a
unit follows it directly. A value that is not finite has no digits: it is written as a `calc()`
around its keyword, times one of the unit if there is a unit. Messages to people write numbers
in words of their own and keep the sign of zero.
-/

namespace CssValues

/-- The keyword of a value that is not finite. -/
def nonFiniteKeyword? (x : Binary64) : Option String :=
  if x.IsNaN then some "NaN"
  else if x.IsInfinite then some (if x.negative then "-infinity" else "infinity")
  else none

/-- The text of a finite number. Zero has no sign. -/
def finiteText (x : Binary64) : String :=
  (if x < 0 then "-" else "") ++ x.shortest.text

/-- The text of a number in a style sheet. -/
def numberText (x : Binary64) : String :=
  match nonFiniteKeyword? x with
  | some keyword => "calc(" ++ keyword ++ ")"
  | none => finiteText x

/-- The text of a number with a unit in a style sheet. -/
def dimensionText (x : Binary64) (unit : String) : String :=
  match nonFiniteKeyword? x with
  | some keyword => "calc(" ++ keyword ++ " * 1" ++ unit ++ ")"
  | none => finiteText x ++ unit

/-- The text of a number in a message. -/
def messageText (x : Binary64) : String :=
  if x.IsNaN then "NaN"
  else
    let sign := if x.negative then "-" else ""
    if x.IsInfinite then sign ++ "inf" else sign ++ x.shortest.text

end CssValues
