import CssValues.Dimension.Linear

/-!
# Times

Times count seconds or milliseconds; they may be negative, as a delay is.
-/

namespace CssValues

/-- The units of time. -/
inductive TimeUnit where
  | s
  | ms
deriving DecidableEq

instance : Vocabulary TimeUnit where
  all := [.s, .ms]
  token
    | .s => "s"
    | .ms => "ms"

/-- Sizes in milliseconds. -/
instance : LinearUnit TimeUnit where
  factor
    | .s => 1000
    | .ms => 1
  factor_pos unit := by cases unit <;> decide +kernel
  factor_isFinite unit := by cases unit <;> decide +kernel

/-- A time. -/
abbrev Time := Dimension TimeUnit

namespace Time

/-- A time in seconds. -/
def s (value : Binary64) : Time := ⟨value, .s⟩

/-- A time in milliseconds. -/
def ms (value : Binary64) : Time := ⟨value, .ms⟩

/-- The number of seconds. -/
def inSeconds (x : Time) : Binary64 := (x.convert .s).value

/-- The number of milliseconds. -/
def inMilliseconds (x : Time) : Binary64 := (x.convert .ms).value

end Time

end CssValues
