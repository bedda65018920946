import CssValues.Binary64.Rounding
import CssValues.Decimal

/-!
# The shortest decimal of a value

Every finite value is a whole multiple of `10 ^ -1074`, the `scaledMagnitude` of its word. A decimal
grid with step `10 ^ place`, counted in the same multiples, has two points next to the value, and if
any of its points rounds to the value then one of those two does. The shortest decimal lies on the
coarsest grid that has such a point; of two such points it is the nearer, and of two equally near
ones the one farther from zero. At place zero the value itself is on the grid.
-/

namespace CssValues

namespace Binary64

/-- The number of `10 ^ -1074` in one unit, `5 ^ 1074`. -/
@[irreducible] def tenthsPerUnit : Nat := Nat.pow 5 1074

/-- A magnitude as a multiple of `10 ^ -1074`. -/
@[irreducible] def scaledMagnitude (magnitude : Nat) : Nat :=
  magnitudeUnits magnitude * tenthsPerUnit

/-- The point `coefficient · 10 ^ place` of a grid rounds to the magnitude. -/
def readsBack (magnitude coefficient place : Nat) : Bool :=
  nearestMagnitude (coefficient * Nat.pow 10 place) tenthsPerUnit == magnitude

/-- The coefficient of the grid point next to the magnitude that rounds to it, if there is one:
the nearer of two, and the larger of two equally near. -/
@[irreducible] def gridPoint? (magnitude place : Nat) : Option Nat :=
  let below := scaledMagnitude magnitude / Nat.pow 10 place
  let above := below + 1
  let nearestFirst :=
    if 2 * scaledMagnitude magnitude < (below + above) * Nat.pow 10 place then [below, above]
    else [above, below]
  nearestFirst.find? fun coefficient => readsBack magnitude coefficient place

/-- The first point, on the grids from a place down to place one, and its place. -/
def firstPoint? (point? : Nat → Option Nat) : Nat → Option (Nat × Nat)
  | 0 => none
  | place + 1 =>
    match point? (place + 1) with
    | some coefficient => some (coefficient, place + 1)
    | none => firstPoint? point? place

/-- The coarsest grid point that rounds to the magnitude, and its place, with no grid coarser than
the given place. -/
def coarsestPoint (magnitude place : Nat) : Nat × Nat :=
  (firstPoint? (gridPoint? magnitude) place).getD (scaledMagnitude magnitude, 0)

/-- A place whose grid is too coarse for the magnitude: `28 / 93` exceeds the decimal logarithm
of two, so the first grid point is more than five times the magnitude. -/
def coarsePlace (magnitude : Nat) : Nat := (scaledMagnitude magnitude).log2 * 28 / 93 + 2

/-- The decimal of the fewest digits that rounds to the magnitude of a finite value. -/
def shortest (x : Binary64) : Decimal :=
  if x.IsZero then ⟨0, 0⟩
  else
    let point := coarsestPoint x.magnitude (coarsePlace x.magnitude)
    ⟨point.1, (point.2 : Int) - 1074⟩

/-- The number of `10 ^ -1074` in one unit, computed. It is kept folded elsewhere. -/
theorem tenthsPerUnit_eq : tenthsPerUnit = Nat.pow 5 1074 := by
  unfold tenthsPerUnit
  rfl

end Binary64

end CssValues
