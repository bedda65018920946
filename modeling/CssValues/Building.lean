import CssValues.Dimension.Angle
import CssValues.Dimension.Length
import CssValues.Dimension.Time
import CssValues.Keyword.LineStyle
import CssValues.Scalar

/-!
# Building values by their units

A type that holds lengths says so once, with an instance of `OfLength`, and is then built by the
unit: `OfLength.px 10` is ten pixels in every such type. The other classes of this module do the
same for percentages, numbers, angles, times and styles of lines.
-/

namespace CssValues

/-- Types that hold lengths. -/
class OfLength (α : Type) where
  /-- The value that a length is. -/
  ofLength : Length → α

/-- Types that hold percentages. -/
class OfPercentage (α : Type) where
  /-- The value that a percentage is. -/
  ofPercentage : Percentage → α

/-- Types that hold plain numbers. -/
class OfNumber (α : Type) where
  /-- The value that a number is. -/
  ofNumber : Number → α

/-- Types that hold angles. -/
class OfAngle (α : Type) where
  /-- The value that an angle is. -/
  ofAngle : Angle → α

/-- Types that hold times. -/
class OfTime (α : Type) where
  /-- The value that a time is. -/
  ofTime : Time → α

/-- Types that hold styles of lines. -/
class OfLineStyle (α : Type) where
  /-- The value that a style is. -/
  ofLineStyle : LineStyle → α

namespace OfLength

variable {α : Type} [OfLength α]

/-- A length in pixels. -/
def px (value : Binary64) : α := ofLength (Length.px value)

/-- A length in font sizes. -/
def em (value : Binary64) : α := ofLength (Length.em value)

/-- A length in font sizes of the root. -/
def rem (value : Binary64) : α := ofLength (Length.rem value)

/-- A length in hundredths of the viewport width. -/
def vw (value : Binary64) : α := ofLength (Length.vw value)

/-- A length in hundredths of the viewport height. -/
def vh (value : Binary64) : α := ofLength (Length.vh value)

/-- A length in hundredths of the smaller side of the viewport. -/
def vmin (value : Binary64) : α := ofLength (Length.vmin value)

/-- A length in hundredths of the larger side of the viewport. -/
def vmax (value : Binary64) : α := ofLength (Length.vmax value)

/-- A length in shares of the space left over in a grid. -/
def fr (value : Binary64) : α := ofLength (Length.fr value)

/-- A length in points. -/
def pt (value : Binary64) : α := ofLength (Length.pt value)

/-- A length in centimetres. -/
def cm (value : Binary64) : α := ofLength (Length.cm value)

/-- A length in millimetres. -/
def mm (value : Binary64) : α := ofLength (Length.mm value)

/-- A length in inches. -/
def inches (value : Binary64) : α := ofLength (Length.inches value)

/-- A length in widths of the digit zero. -/
def ch (value : Binary64) : α := ofLength (Length.ch value)

/-- A length in heights of the letter x. -/
def ex (value : Binary64) : α := ofLength (Length.ex value)

/-- The length zero, in pixels. -/
def zero : α := ofLength Length.zero

end OfLength

namespace OfPercentage

variable {α : Type} [OfPercentage α]

/-- A number of hundredths. -/
def percent (value : Binary64) : α := ofPercentage ⟨value⟩

end OfPercentage

namespace OfNumber

variable {α : Type} [OfNumber α]

/-- A plain number. -/
def value (value : Binary64) : α := ofNumber ⟨value⟩

/-- The number one. -/
def one : α := ofNumber ⟨1⟩

end OfNumber

namespace OfAngle

variable {α : Type} [OfAngle α]

/-- An angle in degrees. -/
def deg (value : Binary64) : α := ofAngle (Angle.deg value)

/-- An angle in gradians. -/
def grad (value : Binary64) : α := ofAngle (Angle.grad value)

/-- An angle in radians. -/
def rad (value : Binary64) : α := ofAngle (Angle.rad value)

/-- An angle in turns. -/
def turn (value : Binary64) : α := ofAngle (Angle.turn value)

end OfAngle

namespace OfTime

variable {α : Type} [OfTime α]

/-- A time in seconds. -/
def s (value : Binary64) : α := ofTime (Time.s value)

/-- A time in milliseconds. -/
def ms (value : Binary64) : α := ofTime (Time.ms value)

end OfTime

namespace OfLineStyle

variable {α : Type} [OfLineStyle α]

/-- The style `none`. -/
def none : α := ofLineStyle .none

/-- The style `hidden`. -/
def hidden : α := ofLineStyle .hidden

/-- The style `dotted`. -/
def dotted : α := ofLineStyle .dotted

/-- The style `dashed`. -/
def dashed : α := ofLineStyle .dashed

/-- The style `solid`. -/
def solid : α := ofLineStyle .solid

/-- The style `double`. -/
def double : α := ofLineStyle .double

/-- The style `groove`. -/
def groove : α := ofLineStyle .groove

/-- The style `ridge`. -/
def ridge : α := ofLineStyle .ridge

/-- The style `inset`. -/
def inset : α := ofLineStyle .inset

/-- The style `outset`. -/
def outset : α := ofLineStyle .outset

end OfLineStyle

end CssValues
