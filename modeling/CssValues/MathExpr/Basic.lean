import CssValues.CssText
import CssValues.MathExpr.Scan
import CssValues.Text.WhiteSpace

/-!
# Math expressions

A math expression is kept as the text it was given. Writing it decides one thing only: whether the
text, without the white space at its ends, is a single call of `min`, `max` or `clamp`, which stands
by itself, or goes into a `calc()`. What the expression computes is left to its reader.
-/

namespace CssValues

/-- A math expression. -/
structure MathExpr where
  expression : String
deriving DecidableEq

namespace MathExpr

/-- The functions whose calls stand by themselves. -/
def bareFunctions : List String := ["min", "max", "clamp"]

/-- The functions whose calls make an expression nested. -/
def mathFunctions : List String := ["calc", "min", "max", "clamp"]

/-- A call of a function. -/
def call (name arguments : String) : MathExpr := ⟨name ++ "(" ++ arguments ++ ")"⟩

/-- The least of the arguments, which are separated by commas. -/
def min (arguments : String) : MathExpr := call "min" arguments

/-- The greatest of the arguments, which are separated by commas. -/
def max (arguments : String) : MathExpr := call "max" arguments

/-- The preferred argument, between the least and the greatest. -/
def clamp (least preferred greatest : String) : MathExpr :=
  call "clamp" (least ++ ", " ++ preferred ++ ", " ++ greatest)

/-- The least of some values. -/
def minOf {α : Type} [CssText α] (values : List α) : MathExpr := min (commaSeparated values)

/-- The greatest of some values. -/
def maxOf {α : Type} [CssText α] (values : List α) : MathExpr := max (commaSeparated values)

/-- The expression without the white space at its ends. -/
def trimmed (e : MathExpr) : List Char := trimWhiteSpace e.expression.toList

/-- The whole expression is one call of `min`, `max` or `clamp`. -/
def isMathFunction (e : MathExpr) : Bool := bareFunctions.any fun name => isCallOf name e.trimmed

/-- The expression contains a call of a math function. -/
def isNested (e : MathExpr) : Bool := hasCall mathFunctions false e.expression.toList

instance : CssText MathExpr where
  cssText e :=
    let text := String.ofList e.trimmed
    if e.isMathFunction then text else "calc(" ++ text ++ ")"

end MathExpr

end CssValues
