import CssValues.Property.Basic
import CssValues.Structured.Values

/-!
# The structured form of properties

A value without content is the text of its name, and any other is a record of one field with its
name and content. A name that takes no content is also read from a record over null. A property has
the structured form of its value.
-/

namespace CssValues

instance : Structured Size where
  encode
    | .auto => .text "Auto"
    | .lengthPercentage value => .alternative "LengthPercentage" (encode value)
    | .minContent => .text "MinContent"
    | .maxContent => .text "MaxContent"
    | .fitContent limit => .alternative "FitContent" (encode limit)
    | .math expression => .alternative "Calc" (encode expression)
    | .global keyword => .alternative "Global" (encode keyword)
  decode
    | .text "Auto" | .alternative "Auto" .null => .ok .auto
    | .alternative "LengthPercentage" content => Size.lengthPercentage <$> decode content
    | .text "MinContent" | .alternative "MinContent" .null => .ok .minContent
    | .text "MaxContent" | .alternative "MaxContent" .null => .ok .maxContent
    | .alternative "FitContent" content => Size.fitContent <$> decode content
    | .alternative "Calc" content => Size.math <$> decode content
    | .alternative "Global" content => Size.global <$> decode content
    | _ => .error .shape

instance : Structured Margin where
  encode
    | .auto => .text "Auto"
    | .lengthPercentage value => .alternative "LengthPercentage" (encode value)
    | .math expression => .alternative "Calc" (encode expression)
    | .global keyword => .alternative "Global" (encode keyword)
  decode
    | .text "Auto" | .alternative "Auto" .null => .ok .auto
    | .alternative "LengthPercentage" content => Margin.lengthPercentage <$> decode content
    | .alternative "Calc" content => Margin.math <$> decode content
    | .alternative "Global" content => Margin.global <$> decode content
    | _ => .error .shape

instance : Structured BorderLineStyle where
  encode
    | .style line => .alternative "Style" (encode line)
    | .global keyword => .alternative "Global" (encode keyword)
  decode
    | .alternative "Style" content => BorderLineStyle.style <$> decode content
    | .alternative "Global" content => BorderLineStyle.global <$> decode content
    | _ => .error .shape

instance : Structured Opacity where
  encode
    | .numberPercentage value => .alternative "Value" (encode value)
    | .global keyword => .alternative "Global" (encode keyword)
  decode
    | .alternative "Value" content => Opacity.numberPercentage <$> decode content
    | .alternative "Global" content => Opacity.global <$> decode content
    | _ => .error .shape

instance : Structured Rotation where
  encode
    | .none => .text "None"
    | .angle turn => .alternative "Angle" (encode turn)
    | .global keyword => .alternative "Global" (encode keyword)
  decode
    | .text "None" | .alternative "None" .null => .ok .none
    | .alternative "Angle" content => Rotation.angle <$> decode content
    | .alternative "Global" content => Rotation.global <$> decode content
    | _ => .error .shape

instance : Structured AspectRatio where
  encode
    | .auto => .text "Auto"
    | .ratio shape => .alternative "Ratio" (encode shape)
    | .autoRatio shape => .alternative "AutoRatio" (encode shape)
    | .global keyword => .alternative "Global" (encode keyword)
  decode
    | .text "Auto" | .alternative "Auto" .null => .ok .auto
    | .alternative "Ratio" content => AspectRatio.ratio <$> decode content
    | .alternative "AutoRatio" content => AspectRatio.autoRatio <$> decode content
    | .alternative "Global" content => AspectRatio.global <$> decode content
    | _ => .error .shape

instance : Structured TransitionDuration where
  encode
    | .times list => .alternative "Times" (encode list)
    | .global keyword => .alternative "Global" (encode keyword)
  decode
    | .alternative "Times" content => TransitionDuration.times <$> decode content
    | .alternative "Global" content => TransitionDuration.global <$> decode content
    | _ => .error .shape

instance : Structured AnimationDirection where
  encode
    | .normal => .text "Normal"
    | .reverse => .text "Reverse"
    | .alternate => .text "Alternate"
    | .alternateReverse => .text "AlternateReverse"
    | .global keyword => .alternative "Global" (encode keyword)
  decode
    | .text "Normal" | .alternative "Normal" .null => .ok .normal
    | .text "Reverse" | .alternative "Reverse" .null => .ok .reverse
    | .text "Alternate" | .alternative "Alternate" .null => .ok .alternate
    | .text "AlternateReverse" | .alternative "AlternateReverse" .null => .ok .alternateReverse
    | .alternative "Global" content => AnimationDirection.global <$> decode content
    | _ => .error .shape

instance : (kind : PropertyKind) → Structured kind.Value
  | .size => inferInstanceAs (Structured Size)
  | .margin => inferInstanceAs (Structured Margin)
  | .borderLineStyle => inferInstanceAs (Structured BorderLineStyle)
  | .opacity => inferInstanceAs (Structured Opacity)
  | .rotation => inferInstanceAs (Structured Rotation)
  | .aspectRatio => inferInstanceAs (Structured AspectRatio)
  | .transitionDuration => inferInstanceAs (Structured TransitionDuration)
  | .animationDirection => inferInstanceAs (Structured AnimationDirection)

instance {name : PropertyName} : Structured (Property name) where
  encode p := encode p.value
  decode tree := Property.mk <$> decode tree

end CssValues
