import CssValues.Property.Basic
import CssValues.Proofs.Binary64.Whole
import Mathlib.Data.List.Basic

/-!
# One vocabulary for all types

A type that holds lengths takes all names for lengths from its one instance of `OfLength`, and types
that hold other values do the same with the names for those. So a name means one thing in all types:
what it builds is written as the bare value of that name is, for every argument, NaN and infinities
included. A property is built around what its value is, and a bare literal is a value in the default
unit of its type.

The instances of the types are listed in tables here, so that statements can be about all types and
all names at once.
-/

namespace CssValues

/-! ## What types hold -/

/-- The bare values that other types hold. -/
inductive Content where
  | length
  | percentage
  | number
  | angle
  | time
  | lineStyle
deriving DecidableEq

namespace Content

/-- The bare values themselves. -/
abbrev Value : Content → Type
  | length => Length
  | percentage => Percentage
  | number => Number
  | angle => Angle
  | time => Time
  | lineStyle => LineStyle

instance : (content : Content) → CssText content.Value
  | length => inferInstanceAs (CssText Length)
  | percentage => inferInstanceAs (CssText Percentage)
  | number => inferInstanceAs (CssText Number)
  | angle => inferInstanceAs (CssText Angle)
  | time => inferInstanceAs (CssText Time)
  | lineStyle => inferInstanceAs (CssText LineStyle)

/-- How a type holds them. -/
abbrev Held (α : Type) : Content → Type
  | length => OfLength α
  | percentage => OfPercentage α
  | number => OfNumber α
  | angle => OfAngle α
  | time => OfTime α
  | lineStyle => OfLineStyle α

/-- The value of a type that a bare value is. -/
def hold {α : Type} : (content : Content) → content.Held α → content.Value → α
  | length, held => held.ofLength
  | percentage, held => held.ofPercentage
  | number, held => held.ofNumber
  | angle, held => held.ofAngle
  | time, held => held.ofTime
  | lineStyle, held => held.ofLineStyle

/-- Bare values are written in a type as they are on their own. -/
def IsTransparent {α : Type} [CssText α] (content : Content) (held : content.Held α) : Prop :=
  ∀ value, cssText (content.hold held value) = cssText value

end Content

/-! ## Names -/

/-- The names by which values are built. -/
inductive Factory : Content → Type where
  | px : Factory .length
  | em : Factory .length
  | rem : Factory .length
  | vw : Factory .length
  | vh : Factory .length
  | vmin : Factory .length
  | vmax : Factory .length
  | fr : Factory .length
  | pt : Factory .length
  | cm : Factory .length
  | mm : Factory .length
  | inches : Factory .length
  | ch : Factory .length
  | ex : Factory .length
  | zero : Factory .length
  | percent : Factory .percentage
  | value : Factory .number
  | one : Factory .number
  | deg : Factory .angle
  | grad : Factory .angle
  | rad : Factory .angle
  | turn : Factory .angle
  | s : Factory .time
  | ms : Factory .time
  | none : Factory .lineStyle
  | hidden : Factory .lineStyle
  | dotted : Factory .lineStyle
  | dashed : Factory .lineStyle
  | solid : Factory .lineStyle
  | double : Factory .lineStyle
  | groove : Factory .lineStyle
  | ridge : Factory .lineStyle
  | inset : Factory .lineStyle
  | outset : Factory .lineStyle

namespace Factory

/-- The bare value of a name. Some names pass the argument over. -/
def bare : {content : Content} → Factory content → Binary64 → content.Value
  | _, px, x => Length.px x
  | _, em, x => Length.em x
  | _, rem, x => Length.rem x
  | _, vw, x => Length.vw x
  | _, vh, x => Length.vh x
  | _, vmin, x => Length.vmin x
  | _, vmax, x => Length.vmax x
  | _, fr, x => Length.fr x
  | _, pt, x => Length.pt x
  | _, cm, x => Length.cm x
  | _, mm, x => Length.mm x
  | _, inches, x => Length.inches x
  | _, ch, x => Length.ch x
  | _, ex, x => Length.ex x
  | _, zero, _ => Length.zero
  | _, percent, x => Scalar.mk x
  | _, value, x => Scalar.mk x
  | _, one, _ => Scalar.mk 1
  | _, deg, x => Angle.deg x
  | _, grad, x => Angle.grad x
  | _, rad, x => Angle.rad x
  | _, turn, x => Angle.turn x
  | _, s, x => Time.s x
  | _, ms, x => Time.ms x
  | _, none, _ => LineStyle.none
  | _, hidden, _ => LineStyle.hidden
  | _, dotted, _ => LineStyle.dotted
  | _, dashed, _ => LineStyle.dashed
  | _, solid, _ => LineStyle.solid
  | _, double, _ => LineStyle.double
  | _, groove, _ => LineStyle.groove
  | _, ridge, _ => LineStyle.ridge
  | _, inset, _ => LineStyle.inset
  | _, outset, _ => LineStyle.outset

/-- The value of a name in a type that holds the bare ones. -/
def build {α : Type} : {content : Content} → Factory content → content.Held α → Binary64 → α
  | _, px, held, x => @OfLength.px α held x
  | _, em, held, x => @OfLength.em α held x
  | _, rem, held, x => @OfLength.rem α held x
  | _, vw, held, x => @OfLength.vw α held x
  | _, vh, held, x => @OfLength.vh α held x
  | _, vmin, held, x => @OfLength.vmin α held x
  | _, vmax, held, x => @OfLength.vmax α held x
  | _, fr, held, x => @OfLength.fr α held x
  | _, pt, held, x => @OfLength.pt α held x
  | _, cm, held, x => @OfLength.cm α held x
  | _, mm, held, x => @OfLength.mm α held x
  | _, inches, held, x => @OfLength.inches α held x
  | _, ch, held, x => @OfLength.ch α held x
  | _, ex, held, x => @OfLength.ex α held x
  | _, zero, held, _ => @OfLength.zero α held
  | _, percent, held, x => @OfPercentage.percent α held x
  | _, value, held, x => @OfNumber.value α held x
  | _, one, held, _ => @OfNumber.one α held
  | _, deg, held, x => @OfAngle.deg α held x
  | _, grad, held, x => @OfAngle.grad α held x
  | _, rad, held, x => @OfAngle.rad α held x
  | _, turn, held, x => @OfAngle.turn α held x
  | _, s, held, x => @OfTime.s α held x
  | _, ms, held, x => @OfTime.ms α held x
  | _, none, held, _ => @OfLineStyle.none α held
  | _, hidden, held, _ => @OfLineStyle.hidden α held
  | _, dotted, held, _ => @OfLineStyle.dotted α held
  | _, dashed, held, _ => @OfLineStyle.dashed α held
  | _, solid, held, _ => @OfLineStyle.solid α held
  | _, double, held, _ => @OfLineStyle.double α held
  | _, groove, held, _ => @OfLineStyle.groove α held
  | _, ridge, held, _ => @OfLineStyle.ridge α held
  | _, inset, held, _ => @OfLineStyle.inset α held
  | _, outset, held, _ => @OfLineStyle.outset α held

/-- A name builds the value that its bare value is. -/
theorem build_eq_hold {α : Type} {content : Content} (factory : Factory content)
    (held : content.Held α) (x : Binary64) :
    factory.build held x = content.hold held (factory.bare x) := by
  cases factory <;> rfl

/-- Where bare values keep their texts, so do the values of all names. -/
theorem cssText_build {α : Type} [CssText α] {content : Content} {held : content.Held α}
    (h : content.IsTransparent held) (factory : Factory content) (x : Binary64) :
    cssText (factory.build held x) = cssText (factory.bare x) := by
  rw [build_eq_hold, h]

end Factory

/-! ## Types that are built by names -/

namespace PropertyKind

/-- What the values of a kind hold. -/
def contents : PropertyKind → List Content
  | size => [.length, .percentage]
  | margin => [.length, .percentage]
  | borderLineStyle => [.lineStyle]
  | opacity => [.number, .percentage]
  | rotation => [.angle]
  | aspectRatio => []
  | transitionDuration => [.time]
  | animationDirection => []

/-- The instances of the kinds. -/
def held? : (kind : PropertyKind) → (content : Content) → Option (content.Held kind.Value)
  | size, .length => some (inferInstanceAs (OfLength Size))
  | size, .percentage => some (inferInstanceAs (OfPercentage Size))
  | margin, .length => some (inferInstanceAs (OfLength Margin))
  | margin, .percentage => some (inferInstanceAs (OfPercentage Margin))
  | borderLineStyle, .lineStyle => some (inferInstanceAs (OfLineStyle BorderLineStyle))
  | opacity, .number => some (inferInstanceAs (OfNumber Opacity))
  | opacity, .percentage => some (inferInstanceAs (OfPercentage Opacity))
  | rotation, .angle => some (inferInstanceAs (OfAngle Rotation))
  | transitionDuration, .time => some (inferInstanceAs (OfTime TransitionDuration))
  | _, _ => none

/-- Every kind has instances for its contents, and they keep the texts. -/
theorem exists_held (kind : PropertyKind) {content : Content} (h : content ∈ kind.contents) :
    ∃ held ∈ kind.held? content, content.IsTransparent held := by
  cases kind
  case size | margin | opacity =>
    obtain rfl | rfl := List.mem_pair.mp h
    · exact ⟨_, rfl, fun _ => rfl⟩
    · exact ⟨_, rfl, fun _ => rfl⟩
  case borderLineStyle | rotation =>
    obtain rfl := List.mem_singleton.mp h
    exact ⟨_, rfl, fun _ => rfl⟩
  case transitionDuration =>
    -- a list of one time has no comma
    obtain rfl := List.mem_singleton.mp h
    exact ⟨_, rfl, fun _ => @String.intercalate_singleton ", " _⟩
  case aspectRatio | animationDirection => cases h

end PropertyKind

namespace Property

variable {name : PropertyName}

/-- The instances of a property are made of those of its values. -/
def forward : (content : Content) → content.Held name.kind.Value → content.Held (Property name)
  | .length, held => letI : OfLength name.kind.Value := held; inferInstance
  | .percentage, held => letI : OfPercentage name.kind.Value := held; inferInstance
  | .number, held => letI : OfNumber name.kind.Value := held; inferInstance
  | .angle, held => letI : OfAngle name.kind.Value := held; inferInstance
  | .time, held => letI : OfTime name.kind.Value := held; inferInstance
  | .lineStyle, held => letI : OfLineStyle name.kind.Value := held; inferInstance

/-- A bare value of a property is one of its value. -/
theorem hold_forward {content : Content} (held : content.Held name.kind.Value)
    (value : content.Value) :
    content.hold (forward content held) value = (⟨content.hold held value⟩ : Property name) := by
  cases content <;> rfl

/-- A name builds the property around what it builds for the values. -/
theorem build_forward {content : Content} (held : content.Held name.kind.Value)
    (factory : Factory content) (x : Binary64) :
    factory.build (forward content held) x = (⟨factory.build held x⟩ : Property name) := by
  rw [Factory.build_eq_hold, Factory.build_eq_hold, hold_forward]

/-- A property that forwards to a transparent instance is transparent. -/
theorem isTransparent_forward {content : Content} {held : content.Held name.kind.Value}
    (h : content.IsTransparent held) : content.IsTransparent (@forward name content held) := by
  intro value
  rw [hold_forward]
  exact h value

end Property

/-- The types of the library that are built by names. -/
inductive Holder where
  | lengthPercentage
  | anglePercentage
  | numberPercentage
  | timePercentage
  /-- The values of a kind of property. -/
  | value (kind : PropertyKind)
  /-- The property of a name. -/
  | property (name : PropertyName)

namespace Holder

/-- The type itself. -/
abbrev Value : Holder → Type
  | lengthPercentage => LengthPercentage
  | anglePercentage => AnglePercentage
  | numberPercentage => NumberPercentage
  | timePercentage => TimePercentage
  | value kind => kind.Value
  | property name => Property name

instance : (holder : Holder) → CssText holder.Value
  | lengthPercentage => inferInstanceAs (CssText LengthPercentage)
  | anglePercentage => inferInstanceAs (CssText AnglePercentage)
  | numberPercentage => inferInstanceAs (CssText NumberPercentage)
  | timePercentage => inferInstanceAs (CssText TimePercentage)
  | value kind => inferInstanceAs (CssText kind.Value)
  | property name => inferInstanceAs (CssText (Property name))

/-- What the type holds. -/
def contents : Holder → List Content
  | lengthPercentage => [.length, .percentage]
  | anglePercentage => [.angle, .percentage]
  | numberPercentage => [.number, .percentage]
  | timePercentage => [.time, .percentage]
  | value kind => kind.contents
  | property name => name.kind.contents

/-- The instances of the types. -/
def held? : (holder : Holder) → (content : Content) → Option (content.Held holder.Value)
  | lengthPercentage, .length => some (inferInstanceAs (OfLength LengthPercentage))
  | lengthPercentage, .percentage => some (inferInstanceAs (OfPercentage LengthPercentage))
  | anglePercentage, .angle => some (inferInstanceAs (OfAngle AnglePercentage))
  | anglePercentage, .percentage => some (inferInstanceAs (OfPercentage AnglePercentage))
  | numberPercentage, .number => some (inferInstanceAs (OfNumber NumberPercentage))
  | numberPercentage, .percentage => some (inferInstanceAs (OfPercentage NumberPercentage))
  | timePercentage, .time => some (inferInstanceAs (OfTime TimePercentage))
  | timePercentage, .percentage => some (inferInstanceAs (OfPercentage TimePercentage))
  | value kind, content => kind.held? content
  | property name, content => (name.kind.held? content).map (Property.forward content)
  | _, _ => none

/-- Every type has instances for its contents, and they keep the texts. -/
theorem exists_held (holder : Holder) {content : Content} (h : content ∈ holder.contents) :
    ∃ held ∈ holder.held? content, content.IsTransparent held := by
  cases holder
  case lengthPercentage | anglePercentage | numberPercentage | timePercentage =>
    obtain rfl | rfl := List.mem_pair.mp h
    · exact ⟨_, rfl, fun _ => rfl⟩
    · exact ⟨_, rfl, fun _ => rfl⟩
  case value kind => exact kind.exists_held h
  case property name =>
    obtain ⟨held, hheld, htransparent⟩ := name.kind.exists_held h
    exact ⟨_, Option.mem_map_of_mem _ hheld, Property.isTransparent_forward htransparent⟩

end Holder

/-! ## Bare literals -/

/-- Literals are what a method makes of them, and no percentages. -/
structure ReadsLiterals {α : Type} [OfLiteral α] (method : Binary64 → OrPercentage α) : Prop where
  ofLiteral_eq : ∀ x, ofLiteral x = method x
  ofInt_eq : ∀ n : Int32, OrPercentage.ofInt n.toInt = method (.ofInt n.toInt)
  isPercentage_ofLiteral : ∀ x, (ofLiteral x : OrPercentage α).isPercentage = false
  isPercentage_ofInt : ∀ n : Int32,
    (OrPercentage.ofInt n.toInt : OrPercentage α).isPercentage = false

/-- Literals are read by a method that makes values of the default unit. -/
theorem readsLiterals {α : Type} [OfLiteral α] {method : Binary64 → OrPercentage α}
    (h : ∀ x, method x = .value (ofLiteral x)) : ReadsLiterals method where
  ofLiteral_eq x := (h x).symm
  ofInt_eq n := (h (.ofInt n.toInt)).symm
  isPercentage_ofLiteral _ := rfl
  isPercentage_ofInt _ := rfl

/-- A word of 32 bits is a value. -/
theorem Binary64.toRat_ofInt_word (n : Int32) : (ofInt n.toInt).toRat = n.toInt := by
  have hlow := n.le_toInt
  have hhigh := n.toInt_lt
  exact toRat_ofInt (by rw [maxExactNat]; omega)

/-! ## All types and all names -/

/-- In every type, what a name builds is written as the bare value of the name, for every argument.
A property is built around what the name builds for its values. A literal of a type with percentages
is what the name of the default unit builds and no percentage, and a whole number is exact. -/
theorem one_vocabulary :
    (∀ holder : Holder, ∀ content ∈ holder.contents, ∃ held ∈ holder.held? content,
      ∀ (factory : Factory content) (x : Binary64),
        cssText (factory.build held x) = cssText (factory.bare x)) ∧
    (∀ name : PropertyName, ∀ content ∈ name.kind.contents, ∃ held ∈ name.kind.held? content,
      ∃ forwarded ∈ (Holder.property name).held? content,
        ∀ (factory : Factory content) (x : Binary64),
          factory.build forwarded x = (⟨factory.build held x⟩ : Property name)) ∧
    (ReadsLiterals (OfLength.px : Binary64 → LengthPercentage) ∧
      ReadsLiterals (OfAngle.deg : Binary64 → AnglePercentage) ∧
      ReadsLiterals (OfNumber.value : Binary64 → NumberPercentage) ∧
      ReadsLiterals (OfTime.s : Binary64 → TimePercentage)) ∧
    ∀ n : Int32, (Binary64.ofInt n.toInt).toRat = n.toInt := by
  refine ⟨fun holder content hcontent => ?_, fun name content hcontent => ?_, ⟨?_, ?_, ?_, ?_⟩,
    Binary64.toRat_ofInt_word⟩
  · obtain ⟨held, hheld, htransparent⟩ := holder.exists_held hcontent
    exact ⟨held, hheld, fun factory x => Factory.cssText_build htransparent factory x⟩
  · obtain ⟨held, hheld, -⟩ := name.kind.exists_held hcontent
    exact ⟨held, hheld, _, Option.mem_map_of_mem _ hheld, Property.build_forward held⟩
  all_goals exact readsLiterals fun _ => rfl

/-- At NaN too, a top margin in `vmin` is written as the length is, as a `calc()` of one `vmin`, and
is around the margin. -/
theorem margin_top_vmin_nan :
    Content.length ∈ (Holder.property .marginTop).contents ∧
      cssText (OfLength.vmin .nan : Property .marginTop) = cssText (Length.vmin .nan) ∧
      cssText (Length.vmin .nan) = "calc(NaN * 1vmin)" ∧
      (OfLength.vmin .nan : Property .marginTop) = ⟨(OfLength.vmin .nan : Margin)⟩ := by
  have hcontent : Content.length ∈ (Holder.property .marginTop).contents := by decide
  obtain ⟨htext, hforward, -⟩ := one_vocabulary
  obtain ⟨held, hheld, hvmin⟩ := htext _ _ hcontent
  obtain ⟨held', hheld', forwarded, hforwarded, hbuild⟩ := hforward .marginTop _ hcontent
  cases hheld
  cases hheld'
  cases hforwarded
  exact ⟨hcontent, hvmin .vmin .nan, by decide +kernel, hbuild .vmin .nan⟩

end CssValues
