import CssValues.Dimension.Linear

/-!
# Lengths

Absolute units of length have a fixed number to the inch and convert into each other. All other
units depend on a font, a viewport, a container or a grid, which a style sheet does not know, so
conversion between them, or between them and absolute units, is undefined. Conversion of a length to
its own unit is always defined. Sums and comparisons are defined when the second operand converts to
the unit of the first.
-/

namespace CssValues

/-- The units of length, and the unit `fr` of grid tracks. -/
inductive LengthUnit where
  | px
  | cm
  | mm
  | q
  | inches
  | pt
  | pc
  | em
  | rem
  | ex
  | rex
  | ch
  | rch
  | cap
  | ic
  | lh
  | rlh
  | vw
  | vh
  | vi
  | vb
  | vmin
  | vmax
  | svw
  | svh
  | svmin
  | svmax
  | lvw
  | lvh
  | lvmin
  | lvmax
  | dvw
  | dvh
  | dvmin
  | dvmax
  | cqw
  | cqh
  | cqi
  | cqb
  | cqmin
  | cqmax
  | fr
deriving DecidableEq

namespace LengthUnit

/-- The token of a unit. -/
def token : LengthUnit → String
  | .px => "px"
  | .cm => "cm"
  | .mm => "mm"
  | .q => "Q"
  | .inches => "in"
  | .pt => "pt"
  | .pc => "pc"
  | .em => "em"
  | .rem => "rem"
  | .ex => "ex"
  | .rex => "rex"
  | .ch => "ch"
  | .rch => "rch"
  | .cap => "cap"
  | .ic => "ic"
  | .lh => "lh"
  | .rlh => "rlh"
  | .vw => "vw"
  | .vh => "vh"
  | .vi => "vi"
  | .vb => "vb"
  | .vmin => "vmin"
  | .vmax => "vmax"
  | .svw => "svw"
  | .svh => "svh"
  | .svmin => "svmin"
  | .svmax => "svmax"
  | .lvw => "lvw"
  | .lvh => "lvh"
  | .lvmin => "lvmin"
  | .lvmax => "lvmax"
  | .dvw => "dvw"
  | .dvh => "dvh"
  | .dvmin => "dvmin"
  | .dvmax => "dvmax"
  | .cqw => "cqw"
  | .cqh => "cqh"
  | .cqi => "cqi"
  | .cqb => "cqb"
  | .cqmin => "cqmin"
  | .cqmax => "cqmax"
  | .fr => "fr"

/-- Every unit: absolute, font, viewport and container units, and then `fr`. -/
def all : List LengthUnit :=
  [.px, .cm, .mm, .q, .inches, .pt, .pc, .em, .rem, .ex, .rex, .ch, .rch, .cap, .ic, .lh,
    .rlh, .vw, .vh, .vi, .vb, .vmin, .vmax, .svw, .svh, .svmin, .svmax, .lvw, .lvh, .lvmin,
    .lvmax, .dvw, .dvh, .dvmin, .dvmax, .cqw, .cqh, .cqi, .cqb, .cqmin, .cqmax, .fr]

instance : Vocabulary LengthUnit := ⟨all, token⟩

/-- The number of an absolute unit that make up one inch. -/
def perInch? : LengthUnit → Option Binary64
  | .px => some 96
  | .inches => some 1
  | .cm => some 2.54
  | .mm => some 25.4
  | .q => some 101.6
  | .pt => some 72
  | .pc => some 6
  | _ => none

/-- The unit has a fixed size. -/
def isAbsolute (unit : LengthUnit) : Bool := unit.perInch?.isSome

/-- The unit depends on a font. -/
def isFontRelative (unit : LengthUnit) : Bool :=
  unit ∈ [em, rem, ex, rex, ch, rch, cap, ic, lh, rlh]

/-- The unit depends on the viewport. -/
def isViewportRelative (unit : LengthUnit) : Bool :=
  unit ∈ [vw, vh, vi, vb, vmin, vmax, svw, svh, svmin, svmax, lvw, lvh, lvmin, lvmax, dvw, dvh,
    dvmin, dvmax]

/-- The unit depends on a query container. -/
def isContainerRelative (unit : LengthUnit) : Bool :=
  unit ∈ [cqw, cqh, cqi, cqb, cqmin, cqmax]

/-- The unit is a share of the space left over in a grid. -/
def isFlex (unit : LengthUnit) : Bool := unit = fr

end LengthUnit

/-- A length. -/
abbrev Length := Dimension LengthUnit

namespace Length

/-- The length zero, in pixels. -/
def zero : Length := ⟨0, .px⟩

instance : Inhabited Length := ⟨zero⟩

/-- The length in another unit, if it is defined. Conversion to its own unit leaves it as it is. The
numbers per inch stand where sizes do in other families, and exchanged: more to the inch is less. -/
def convert? (x : Length) (unit : LengthUnit) : Option Length :=
  if unit = x.unit then some x
  else
    match x.unit.perInch?, unit.perInch? with
    | some source, some target => some ⟨rescale x.value target source, unit⟩
    | _, _ => none

/-- The number of pixels, for an absolute length. -/
def inPx? (x : Length) : Option Binary64 := (x.convert? .px).map (·.value)

/-- The sum in the unit of the first, if the second converts to it. -/
def add? (x y : Length) : Option Length :=
  (y.convert? x.unit).map fun y => ⟨x.value + y.value, x.unit⟩

/-- The difference in the unit of the first, if the second converts to it. -/
def sub? (x y : Length) : Option Length := x.add? (-y)

/-- Order two lengths after converting the second to the unit of the first. -/
def compareConverted? (x y : Length) : Option Ordering := do
  let y ← y.convert? x.unit
  x.value.compare? y.value

/-- A length in pixels. -/
def px (value : Binary64) : Length := ⟨value, .px⟩

/-- A length in centimetres. -/
def cm (value : Binary64) : Length := ⟨value, .cm⟩

/-- A length in millimetres. -/
def mm (value : Binary64) : Length := ⟨value, .mm⟩

/-- A length in quarter millimetres. -/
def q (value : Binary64) : Length := ⟨value, .q⟩

/-- A length in inches. -/
def inches (value : Binary64) : Length := ⟨value, .inches⟩

/-- A length in points. -/
def pt (value : Binary64) : Length := ⟨value, .pt⟩

/-- A length in picas. -/
def pc (value : Binary64) : Length := ⟨value, .pc⟩

/-- A length in font sizes. -/
def em (value : Binary64) : Length := ⟨value, .em⟩

/-- A length in font sizes of the root. -/
def rem (value : Binary64) : Length := ⟨value, .rem⟩

/-- A length in heights of the letter x. -/
def ex (value : Binary64) : Length := ⟨value, .ex⟩

/-- A length in widths of the digit zero. -/
def ch (value : Binary64) : Length := ⟨value, .ch⟩

/-- A length in line heights. -/
def lh (value : Binary64) : Length := ⟨value, .lh⟩

/-- A length in hundredths of the viewport width. -/
def vw (value : Binary64) : Length := ⟨value, .vw⟩

/-- A length in hundredths of the viewport height. -/
def vh (value : Binary64) : Length := ⟨value, .vh⟩

/-- A length in hundredths of the smaller side of the viewport. -/
def vmin (value : Binary64) : Length := ⟨value, .vmin⟩

/-- A length in hundredths of the larger side of the viewport. -/
def vmax (value : Binary64) : Length := ⟨value, .vmax⟩

/-- A length in hundredths of the dynamic viewport height. -/
def dvh (value : Binary64) : Length := ⟨value, .dvh⟩

/-- A length in hundredths of the width of the query container. -/
def cqw (value : Binary64) : Length := ⟨value, .cqw⟩

/-- A length in shares of the space left over in a grid. -/
def fr (value : Binary64) : Length := ⟨value, .fr⟩

end Length

end CssValues
