import CssValues.Property.AnimationDirection
import CssValues.Property.AspectRatio
import CssValues.Property.BorderLineStyle
import CssValues.Property.Margin
import CssValues.Property.Opacity
import CssValues.Property.Rotation
import CssValues.Property.Size
import CssValues.Property.TransitionDuration

/-!
# Properties

A property has a name and a value, and the name decides the type of the value. Several names share a
type, so the types are listed by the kind of value and each name has a kind. A property is built, is
written and is compared as its value is.
-/

namespace CssValues

/-- The kinds of value that properties take. -/
inductive PropertyKind where
  | size
  | margin
  | borderLineStyle
  | opacity
  | rotation
  | aspectRatio
  | transitionDuration
  | animationDirection
deriving DecidableEq

namespace PropertyKind

/-- The values of a kind. -/
abbrev Value : PropertyKind → Type
  | size => Size
  | margin => Margin
  | borderLineStyle => BorderLineStyle
  | opacity => Opacity
  | rotation => Rotation
  | aspectRatio => AspectRatio
  | transitionDuration => TransitionDuration
  | animationDirection => AnimationDirection

instance : (kind : PropertyKind) → CssText kind.Value
  | size => inferInstanceAs (CssText Size)
  | margin => inferInstanceAs (CssText Margin)
  | borderLineStyle => inferInstanceAs (CssText BorderLineStyle)
  | opacity => inferInstanceAs (CssText Opacity)
  | rotation => inferInstanceAs (CssText Rotation)
  | aspectRatio => inferInstanceAs (CssText AspectRatio)
  | transitionDuration => inferInstanceAs (CssText TransitionDuration)
  | animationDirection => inferInstanceAs (CssText AnimationDirection)

instance : (kind : PropertyKind) → BEq kind.Value
  | size => inferInstanceAs (BEq Size)
  | margin => inferInstanceAs (BEq Margin)
  | borderLineStyle => inferInstanceAs (BEq BorderLineStyle)
  | opacity => inferInstanceAs (BEq Opacity)
  | rotation => inferInstanceAs (BEq Rotation)
  | aspectRatio => inferInstanceAs (BEq AspectRatio)
  | transitionDuration => inferInstanceAs (BEq TransitionDuration)
  | animationDirection => inferInstanceAs (BEq AnimationDirection)

instance : (kind : PropertyKind) → OfGlobal kind.Value
  | size => inferInstanceAs (OfGlobal Size)
  | margin => inferInstanceAs (OfGlobal Margin)
  | borderLineStyle => inferInstanceAs (OfGlobal BorderLineStyle)
  | opacity => inferInstanceAs (OfGlobal Opacity)
  | rotation => inferInstanceAs (OfGlobal Rotation)
  | aspectRatio => inferInstanceAs (OfGlobal AspectRatio)
  | transitionDuration => inferInstanceAs (OfGlobal TransitionDuration)
  | animationDirection => inferInstanceAs (OfGlobal AnimationDirection)

end PropertyKind

/-- The names of the properties. -/
inductive PropertyName where
  | width
  | height
  | marginTop
  | marginRight
  | marginBottom
  | marginLeft
  | borderTopStyle
  | borderRightStyle
  | borderBottomStyle
  | borderLeftStyle
  | opacity
  | rotate
  | aspectRatio
  | transitionDuration
  | animationDirection
deriving DecidableEq

instance : Vocabulary PropertyName where
  all := [.width, .height, .marginTop, .marginRight, .marginBottom, .marginLeft, .borderTopStyle,
    .borderRightStyle, .borderBottomStyle, .borderLeftStyle, .opacity, .rotate, .aspectRatio,
    .transitionDuration, .animationDirection]
  token
    | .width => "width"
    | .height => "height"
    | .marginTop => "margin-top"
    | .marginRight => "margin-right"
    | .marginBottom => "margin-bottom"
    | .marginLeft => "margin-left"
    | .borderTopStyle => "border-top-style"
    | .borderRightStyle => "border-right-style"
    | .borderBottomStyle => "border-bottom-style"
    | .borderLeftStyle => "border-left-style"
    | .opacity => "opacity"
    | .rotate => "rotate"
    | .aspectRatio => "aspect-ratio"
    | .transitionDuration => "transition-duration"
    | .animationDirection => "animation-direction"

/-- The kind of value that a property takes. -/
abbrev PropertyName.kind : PropertyName → PropertyKind
  | width | height => .size
  | marginTop | marginRight | marginBottom | marginLeft => .margin
  | borderTopStyle | borderRightStyle | borderBottomStyle | borderLeftStyle => .borderLineStyle
  | opacity => .opacity
  | rotate => .rotation
  | aspectRatio => .aspectRatio
  | transitionDuration => .transitionDuration
  | animationDirection => .animationDirection

/-- A value for the property of a name. -/
structure Property (name : PropertyName) where
  value : name.kind.Value

namespace Property

variable {name : PropertyName}

instance : BEq (Property name) := ⟨fun p q => p.value == q.value⟩

instance : CssText (Property name) := ⟨fun p => cssText p.value⟩

instance : OfGlobal (Property name) := ⟨fun keyword => ⟨ofGlobal keyword⟩⟩

instance [OfLength name.kind.Value] : OfLength (Property name) :=
  ⟨fun length => ⟨OfLength.ofLength length⟩⟩

instance [OfPercentage name.kind.Value] : OfPercentage (Property name) :=
  ⟨fun percentage => ⟨OfPercentage.ofPercentage percentage⟩⟩

instance [OfNumber name.kind.Value] : OfNumber (Property name) :=
  ⟨fun number => ⟨OfNumber.ofNumber number⟩⟩

instance [OfAngle name.kind.Value] : OfAngle (Property name) :=
  ⟨fun angle => ⟨OfAngle.ofAngle angle⟩⟩

instance [OfTime name.kind.Value] : OfTime (Property name) :=
  ⟨fun time => ⟨OfTime.ofTime time⟩⟩

instance [OfLineStyle name.kind.Value] : OfLineStyle (Property name) :=
  ⟨fun style => ⟨OfLineStyle.ofLineStyle style⟩⟩

end Property

end CssValues
