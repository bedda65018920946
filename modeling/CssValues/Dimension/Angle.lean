import CssValues.Dimension.Linear

/-!
# Angles

Angles count degrees, gradians, radians or turns; a negative angle turns counter-clockwise. The size
of a radian is the quotient of a half turn in degrees by the value nearest to `π`.
-/

namespace CssValues

/-- The units of angle. -/
inductive AngleUnit where
  | deg
  | grad
  | rad
  | turn
deriving DecidableEq

instance : Vocabulary AngleUnit where
  all := [.deg, .grad, .rad, .turn]
  token
    | .deg => "deg"
    | .grad => "grad"
    | .rad => "rad"
    | .turn => "turn"

/-- The value nearest to `π`. -/
def Binary64.pi : Binary64 := 3.14159265358979323846264338327950288

/-- Sizes in degrees. -/
instance : LinearUnit AngleUnit where
  factor
    | .deg => 1
    | .grad => 0.9
    | .rad => 180 / Binary64.pi
    | .turn => 360
  factor_pos unit := by cases unit <;> decide +kernel
  factor_isFinite unit := by cases unit <;> decide +kernel

/-- An angle. -/
abbrev Angle := Dimension AngleUnit

namespace Angle

/-- An angle in degrees. -/
def deg (value : Binary64) : Angle := ⟨value, .deg⟩

/-- An angle in gradians. -/
def grad (value : Binary64) : Angle := ⟨value, .grad⟩

/-- An angle in radians. -/
def rad (value : Binary64) : Angle := ⟨value, .rad⟩

/-- An angle in turns. -/
def turn (value : Binary64) : Angle := ⟨value, .turn⟩

/-- The number of degrees. -/
def inDegrees (x : Angle) : Binary64 := (x.convert .deg).value

/-- The number of radians. -/
def inRadians (x : Angle) : Binary64 := (x.convert .rad).value

/-- The number of turns. -/
def inTurns (x : Angle) : Binary64 := (x.convert .turn).value

end Angle

end CssValues
