import CssValues.Dimension.Linear
import CssValues.ValueError

/-!
# Resolutions

A resolution counts dots per inch, per centimetre or per pixel, and is never negative and never
NaN. The bound is part of the type: building and scaling check it, conversion and sums keep it.
`x` is another token for dots per pixel and stays apart from it.
-/

namespace CssValues

/-- The units of resolution. -/
inductive ResolutionUnit where
  | dpi
  | dpcm
  | dppx
  | x
deriving DecidableEq

instance : Vocabulary ResolutionUnit where
  all := [.dpi, .dpcm, .dppx, .x]
  token
    | .dpi => "dpi"
    | .dpcm => "dpcm"
    | .dppx => "dppx"
    | .x => "x"

/-- Sizes in dots per inch. -/
instance : LinearUnit ResolutionUnit where
  factor
    | .dpi => 1
    | .dpcm => 2.54
    | .dppx | .x => 96
  factor_pos unit := by cases unit <;> decide +kernel
  factor_isFinite unit := by cases unit <;> decide +kernel

/-- A resolution: zero of either sign, or a value above zero. -/
structure Resolution extends Dimension ResolutionUnit where
  zero_le_value : 0 ≤ value
deriving DecidableEq

namespace Resolution

instance : BEq Resolution := ⟨fun r s => r.toDimension == s.toDimension⟩

instance : CssText Resolution := ⟨fun r => cssText r.toDimension⟩

/-- The resolution of a value that is not negative. -/
def ofValue (value : Binary64) (unit : ResolutionUnit) : Except ValueError Resolution :=
  if h : 0 ≤ value then .ok ⟨⟨value, unit⟩, h⟩ else .error (.negativeResolution value)

/-- A value that is not negative is a resolution. -/
theorem ofValue_eq_ok {value : Binary64} (h : 0 ≤ value) (unit : ResolutionUnit) :
    ofValue value unit = .ok ⟨⟨value, unit⟩, h⟩ :=
  dif_pos h

/-- A value below zero, and NaN, is refused, and the error has it. -/
theorem ofValue_eq_error {value : Binary64} (h : ¬ 0 ≤ value) (unit : ResolutionUnit) :
    ofValue value unit = .error (.negativeResolution value) :=
  dif_neg h

/-- Dots per inch. -/
def dpi (value : Binary64) : Except ValueError Resolution := ofValue value .dpi

/-- Dots per centimetre. -/
def dpcm (value : Binary64) : Except ValueError Resolution := ofValue value .dpcm

/-- Dots per pixel. -/
def dppx (value : Binary64) : Except ValueError Resolution := ofValue value .dppx

/-- Dots per pixel, under the shorter token. -/
def x (value : Binary64) : Except ValueError Resolution := ofValue value .x

/-- The resolution in another unit. Conversion to its own unit leaves it as it is. -/
def convert (r : Resolution) (unit : ResolutionUnit) : Resolution :=
  ⟨r.toDimension.convert unit, Dimension.zero_le_convert r.zero_le_value unit⟩

/-- The number of dots per pixel. -/
def inDppx (r : Resolution) : Binary64 := (r.convert .dppx).value

/-- Order two resolutions of one unit. -/
def compare? (r s : Resolution) : Option Ordering := r.toDimension.compare? s.toDimension

/-- Order two resolutions after converting the second to the unit of the first. -/
def compareConverted? (r s : Resolution) : Option Ordering :=
  r.toDimension.compareConverted? s.toDimension

/-- The sum, in the unit of the first. -/
instance : Add Resolution where
  add r s := ⟨r.toDimension + s.toDimension,
    Binary64.zero_le_add r.zero_le_value (s.convert r.unit).zero_le_value⟩

/-- The resolution multiplied by a factor, unless the product is refused. -/
def scale (r : Resolution) (factor : Binary64) : Except ValueError Resolution :=
  ofValue (r.value * factor) r.unit

end Resolution

end CssValues
