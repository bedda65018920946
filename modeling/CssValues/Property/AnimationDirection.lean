import CssValues.Keyword.Global

/-!
# Directions of animations

The values of `animation-direction`.
-/

namespace CssValues

/-- Whether an animation runs forwards, backwards or in turns. -/
inductive AnimationDirection where
  | normal
  | reverse
  | alternate
  | alternateReverse
  | global (keyword : Global)
deriving DecidableEq

namespace AnimationDirection

instance : Inhabited AnimationDirection := ⟨normal⟩

/-- Every value: the directions, and then the keywords of every property. -/
def all : List AnimationDirection :=
  [normal, reverse, alternate, alternateReverse] ++ Vocabulary.all.map global

instance : CssText AnimationDirection where
  cssText
    | normal => "normal"
    | reverse => "reverse"
    | alternate => "alternate"
    | alternateReverse => "alternate-reverse"
    | global keyword => cssText keyword

instance : OfGlobal AnimationDirection := ⟨global⟩

end AnimationDirection

end CssValues
