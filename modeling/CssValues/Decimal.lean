import CssValues.Binary64.Rounding

/-!
# Decimals and their positional text

A `Decimal` is a natural coefficient times a power of ten. Its text is positional and has no
exponent: zeros fill the places between the digits and the point, whichever side the point is on.
The text has a fraction exactly when the power of ten is negative.
-/

namespace CssValues

/-- The number `coefficient · 10 ^ exponent`. -/
structure Decimal where
  coefficient : Nat
  exponent : Int
deriving DecidableEq

namespace Decimal

/-- The value nearest to the decimal. -/
def nearest (d : Decimal) : Binary64 := Binary64.ofDecimal d.coefficient d.exponent

/-- The digits of a number below `10 ^ places`, with the zeros in front that fill the places. -/
def fractionDigits (places n : Nat) : List Char :=
  List.leftpad places '0' (Nat.toDigits 10 n)

/-- The characters of the positional text. -/
def chars (d : Decimal) : List Char :=
  match d.exponent with
  | .ofNat zeros => Nat.toDigits 10 d.coefficient ++ List.replicate zeros '0'
  | .negSucc below =>
    let places := below + 1
    Nat.toDigits 10 (d.coefficient / Nat.pow 10 places) ++
      '.' :: fractionDigits places (d.coefficient % Nat.pow 10 places)

/-- The positional text. -/
def text (d : Decimal) : String := String.ofList d.chars

/-- Padding adds zeros in front, which leave the number that the digits stand for. -/
theorem ofDigitChars_fractionDigits (places n : Nat) :
    Nat.ofDigitChars 10 (fractionDigits places n) 0 = n := by
  simp [fractionDigits, List.leftpad, Nat.ofDigitChars_append]

end Decimal

end CssValues
