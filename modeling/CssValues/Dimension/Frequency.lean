import CssValues.Dimension.Linear

/-!
# Frequencies

Frequencies count hertz or kilohertz.
-/

namespace CssValues

/-- The units of frequency. -/
inductive FrequencyUnit where
  | hz
  | khz
deriving DecidableEq

instance : Vocabulary FrequencyUnit where
  all := [.hz, .khz]
  token
    | .hz => "Hz"
    | .khz => "kHz"

/-- Sizes in hertz. -/
instance : LinearUnit FrequencyUnit where
  factor
    | .hz => 1
    | .khz => 1000
  factor_pos unit := by cases unit <;> decide +kernel
  factor_isFinite unit := by cases unit <;> decide +kernel

/-- A frequency. -/
abbrev Frequency := Dimension FrequencyUnit

namespace Frequency

/-- A frequency in hertz. -/
def hz (value : Binary64) : Frequency := ⟨value, .hz⟩

/-- A frequency in kilohertz. -/
def khz (value : Binary64) : Frequency := ⟨value, .khz⟩

/-- The number of hertz. -/
def inHertz (x : Frequency) : Binary64 := (x.convert .hz).value

end Frequency

end CssValues
