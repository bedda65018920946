import CssValues.Proofs.MathExpr.Factories
import CssValues.Property.Basic

/-!
# Plain texts

The text of a value is plain unless a math expression is in the value: letters, digits and the few
signs that numbers, ratios, lists and the calls around infinities and NaN need. No character that
ends or divides a declaration is among them.
-/

namespace CssValues

/-- The characters in the texts of values without math expressions. -/
def isPlainChar (c : Char) : Bool := isInertChar c || ['(', ')', '*'].contains c

/-- The text has no separator of declarations in it, and no exclamation mark. -/
def IsPlainText (text : String) : Prop := text.toList.all isPlainChar = true

instance (text : String) : Decidable (IsPlainText text) := inferInstanceAs (Decidable (_ = true))

namespace IsPlainText

variable {text other : String}

/-- Plain texts one after the other are a plain text. -/
theorem append (htext : IsPlainText text) (hother : IsPlainText other) :
    IsPlainText (text ++ other) := by
  rw [IsPlainText, String.toList_append, List.all_append, htext, hother]
  rfl

/-- A character that is not plain is in no plain text. -/
theorem not_mem (h : IsPlainText text) {c : Char} (hc : isPlainChar c = false) :
    c ∉ text.toList := by
  intro hmem
  rw [List.all_eq_true.mp h c hmem] at hc
  cases hc

/-- A text of inert characters is plain. -/
theorem of_forall_isInertChar (h : ∀ c ∈ text.toList, isInertChar c = true) :
    IsPlainText text := by
  refine List.all_eq_true.mpr fun c hc => ?_
  rw [isPlainChar, h c hc, Bool.true_or]

/-- Words are plain. -/
theorem of_isWord (h : isWord text.toList = true) : IsPlainText text :=
  of_forall_isInertChar fun _ hc => isInertChar_of_mem_word h hc

/-- The text of a finite number is plain. -/
theorem finiteText (x : Binary64) : IsPlainText (CssValues.finiteText x) :=
  of_forall_isInertChar fun _ hc =>
    isInertChar_of_isNumeralChar (isNumeralChar_of_mem_finiteText hc)

/-- The keywords of values that are not finite are plain. -/
theorem nonFiniteKeyword {x : Binary64} {keyword : String}
    (h : nonFiniteKeyword? x = some keyword) : IsPlainText keyword :=
  of_forall_isInertChar (isInertChar_of_mem_keyword (nonFiniteKeyword?_cases h))

/-- The text of a number is plain, finite or not. -/
theorem numberText (x : Binary64) : IsPlainText (CssValues.numberText x) := by
  unfold CssValues.numberText
  split
  next keyword hkeyword =>
    exact ((by decide : IsPlainText "calc(").append (nonFiniteKeyword hkeyword)).append (by decide)
  next => exact finiteText x

/-- The text of a number with a unit is plain if the unit is. -/
theorem dimensionText (x : Binary64) {unit : String} (hunit : IsPlainText unit) :
    IsPlainText (CssValues.dimensionText x unit) := by
  unfold CssValues.dimensionText
  split
  next keyword hkeyword =>
    have hopen : IsPlainText ("calc(" ++ keyword) :=
      (by decide : IsPlainText "calc(").append (nonFiniteKeyword hkeyword)
    exact ((hopen.append (by decide : IsPlainText " * 1")).append hunit).append (by decide)
  next => exact (finiteText x).append hunit

/-- Plain texts with commas between them are a plain text. -/
theorem intercalate {texts : List String} (h : ∀ text ∈ texts, IsPlainText text) :
    IsPlainText (", ".intercalate texts) := by
  induction texts with
  | nil => decide
  | cons text texts ih =>
    rw [List.forall_mem_cons] at h
    cases texts with
    | nil =>
      rw [String.intercalate_singleton]
      exact h.1
    | cons other texts =>
      rw [String.intercalate_cons_cons]
      exact (h.1.append (by decide)).append (ih h.2)

end IsPlainText

/-- The text of every value of the type is plain. -/
class PlainText (α : Type) [CssText α] : Prop where
  isPlainText : ∀ value : α, IsPlainText (cssText value)

export PlainText (isPlainText)

instance : PlainText Number := ⟨fun x => .numberText x.value⟩

instance : PlainText Percentage := ⟨fun x => .dimensionText x.value (by decide)⟩

instance {α : Type} [Vocabulary α] [LawfulVocabulary α] : PlainText α :=
  ⟨fun member => .of_isWord (Vocabulary.isWord_token member)⟩

instance {U : Type} [Vocabulary U] [LawfulVocabulary U] : PlainText (Dimension U) :=
  ⟨fun x => .dimensionText x.value (.of_isWord (Vocabulary.isWord_token x.unit))⟩

instance {α : Type} [CssText α] [PlainText α] : PlainText (OrPercentage α) where
  isPlainText
    | .value x => isPlainText x
    | .percentage p => isPlainText p

instance : PlainText Ratio where
  isPlainText r := by
    refine (IsPlainText.numberText r.width).append ?_
    split
    · decide
    · exact (by decide : IsPlainText " / ").append (.numberText r.height)

instance : PlainText BorderLineStyle where
  isPlainText
    | .style line => isPlainText line
    | .global keyword => isPlainText keyword

instance : PlainText Opacity where
  isPlainText
    | .numberPercentage value => isPlainText value
    | .global keyword => isPlainText keyword

instance : PlainText Rotation where
  isPlainText
    | .none => (by decide : IsPlainText "none")
    | .angle turn => isPlainText turn
    | .global keyword => isPlainText keyword

instance : PlainText AspectRatio where
  isPlainText
    | .auto => (by decide : IsPlainText "auto")
    | .ratio shape => isPlainText shape
    | .autoRatio shape => (by decide : IsPlainText "auto ").append (isPlainText shape)
    | .global keyword => isPlainText keyword

instance : PlainText TransitionDuration where
  isPlainText
    | .times _ => .intercalate (List.forall_mem_map.mpr fun time _ => isPlainText time)
    | .global keyword => isPlainText keyword

instance : PlainText AnimationDirection where
  isPlainText
    | .normal => (by decide : IsPlainText "normal")
    | .reverse => (by decide : IsPlainText "reverse")
    | .alternate => (by decide : IsPlainText "alternate")
    | .alternateReverse => (by decide : IsPlainText "alternate-reverse")
    | .global keyword => isPlainText keyword

/-! ## Properties -/

instance : LawfulVocabulary PropertyName where
  mem_all member := by cases member <;> decide

/-- The value of a property has no math expression in it. -/
def PropertyKind.IsMathFree : (kind : PropertyKind) → kind.Value → Prop
  | .size, value => ∀ e : MathExpr, value ≠ Size.math e
  | .margin, value => ∀ e : MathExpr, value ≠ Margin.math e
  | _, _ => True

/-- A property without a math expression in its value. -/
def Property.IsMathFree {name : PropertyName} (p : Property name) : Prop :=
  name.kind.IsMathFree p.value

/-- The text of a value without a math expression is plain. -/
theorem PropertyKind.isPlainText_of_isMathFree {kind : PropertyKind} {value : kind.Value}
    (h : kind.IsMathFree value) : IsPlainText (cssText value) := by
  cases kind with
  | size =>
    cases value with
    | auto => exact (by decide : IsPlainText "auto")
    | lengthPercentage value => exact isPlainText value
    | minContent => exact (by decide : IsPlainText "min-content")
    | maxContent => exact (by decide : IsPlainText "max-content")
    | fitContent limit =>
      cases limit with
      | none => exact (by decide : IsPlainText "fit-content")
      | some limit =>
        have hopen : IsPlainText "fit-content(" := by decide
        exact (hopen.append (isPlainText limit)).append (by decide)
    | math e => exact absurd rfl (h e)
    | global keyword => exact isPlainText keyword
  | margin =>
    cases value with
    | auto => exact (by decide : IsPlainText "auto")
    | lengthPercentage value => exact isPlainText value
    | math e => exact absurd rfl (h e)
    | global keyword => exact isPlainText keyword
  | borderLineStyle => exact isPlainText (α := BorderLineStyle) value
  | opacity => exact isPlainText (α := Opacity) value
  | rotation => exact isPlainText (α := Rotation) value
  | aspectRatio => exact isPlainText (α := AspectRatio) value
  | transitionDuration => exact isPlainText (α := TransitionDuration) value
  | animationDirection => exact isPlainText (α := AnimationDirection) value

end CssValues
