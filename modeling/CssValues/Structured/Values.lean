import CssValues.Structured.Basic
import CssValues.Value

/-!
# The structured form of values

Scalars are bare numbers and math expressions bare texts. Dimensions and ratios are records of their
parts, and the parts of resolutions and ratios are checked. A value or a percentage is a record of
one field, named for the type of the value or `percentage`.
-/

namespace CssValues

instance {kind : ScalarKind} : Structured (Scalar kind) where
  encode x := encode x.value
  decode tree := Scalar.mk <$> decode tree

instance : Structured MathExpr where
  encode e := .text e.expression
  decode
    | .text expression => .ok ⟨expression⟩
    | _ => .error .shape

instance {U : Type} [Vocabulary U] : Structured (Dimension U) where
  encode x := .record [("value", encode x.value), ("unit", encode x.unit)]
  decode tree := do
    let (value, unit) ← tree.decodePair "value" "unit"
    return ⟨value, unit⟩

instance : Structured Resolution where
  encode r := encode r.toDimension
  decode tree := do
    let x : Dimension ResolutionUnit ← decode tree
    DecodeError.ofCheck (Resolution.ofValue x.value x.unit)

instance : Structured Ratio where
  encode r := .record [("width", encode r.width), ("height", encode r.height)]
  decode tree := do
    let (width, height) ← tree.decodePair "width" "height"
    DecodeError.ofCheck (Ratio.ofComponents width height)

/-- Types that name themselves beside percentages. -/
class ValueTag (α : Type) where
  /-- The name of the field that holds a value of the type. -/
  tag : String

instance : ValueTag Length := ⟨"length"⟩
instance : ValueTag Angle := ⟨"angle"⟩
instance : ValueTag Number := ⟨"number"⟩
instance : ValueTag Time := ⟨"time"⟩

instance {α : Type} [Structured α] [ValueTag α] : Structured (OrPercentage α) where
  encode
    | .value x => .alternative (ValueTag.tag α) (encode x)
    | .percentage p => .alternative "percentage" (encode p)
  decode
    | .alternative name content =>
      if name = ValueTag.tag α then OrPercentage.value <$> decode content
      else if name = "percentage" then OrPercentage.percentage <$> decode content
      else .error .shape
    | _ => .error .shape

end CssValues
