import CssValues.Proofs.Structured.Values
import CssValues.Structured.Property

/-!
# Every type is read back from its trees

Each property is written under the name of its alternative and found again under that name: no two
alternatives of a type share a name, and the content of each is read back in its own type. So every
type with a structured form is lawful, properties under all their names included.
-/

namespace CssValues

instance : HasNumbers Size where
  numbers
    | .lengthPercentage v => numbers v
    | .fitContent limit => numbers limit
    | .auto | .minContent | .maxContent | .math _ | .global _ => []

instance : HasNumbers Margin where
  numbers
    | .lengthPercentage v => numbers v
    | .auto | .math _ | .global _ => []

instance : HasNumbers BorderLineStyle := ⟨fun _ => []⟩

instance : HasNumbers Opacity where
  numbers
    | .numberPercentage v => numbers v
    | .global _ => []

instance : HasNumbers Rotation where
  numbers
    | .angle turn => numbers turn
    | .none | .global _ => []

instance : HasNumbers AspectRatio where
  numbers
    | .ratio shape | .autoRatio shape => numbers shape
    | .auto | .global _ => []

instance : HasNumbers TransitionDuration where
  numbers
    | .times list => numbers list
    | .global _ => []

instance : HasNumbers AnimationDirection := ⟨fun _ => []⟩

instance : (kind : PropertyKind) → HasNumbers kind.Value
  | .size => inferInstanceAs (HasNumbers Size)
  | .margin => inferInstanceAs (HasNumbers Margin)
  | .borderLineStyle => inferInstanceAs (HasNumbers BorderLineStyle)
  | .opacity => inferInstanceAs (HasNumbers Opacity)
  | .rotation => inferInstanceAs (HasNumbers Rotation)
  | .aspectRatio => inferInstanceAs (HasNumbers AspectRatio)
  | .transitionDuration => inferInstanceAs (HasNumbers TransitionDuration)
  | .animationDirection => inferInstanceAs (HasNumbers AnimationDirection)

instance {name : PropertyName} : HasNumbers (Property name) := ⟨fun p => numbers p.value⟩

/-! ## Values of properties -/

/-- Nothing in a keyword or in an expression can be lost. -/
theorem allFinite_of_numbers_eq_nil {α : Type} [HasNumbers α] {v : α} (h : numbers v = []) :
    AllFinite v := by
  intro x hx
  rw [h] at hx
  contradiction

instance : LawfulStructured Size where
  decode_encode v h := by
    cases v with
    | auto | minContent | maxContent => rfl
    | lengthPercentage v => exact map_decode_encode Size.lengthPercentage h
    | fitContent limit => exact map_decode_encode Size.fitContent h
    | math e => exact map_decode_encode Size.math (allFinite_of_numbers_eq_nil rfl)
    | global keyword => exact map_decode_encode Size.global (allFinite_of_numbers_eq_nil rfl)

instance : LawfulStructured Margin where
  decode_encode v h := by
    cases v with
    | auto => rfl
    | lengthPercentage v => exact map_decode_encode Margin.lengthPercentage h
    | math e => exact map_decode_encode Margin.math (allFinite_of_numbers_eq_nil rfl)
    | global keyword => exact map_decode_encode Margin.global (allFinite_of_numbers_eq_nil rfl)

instance : LawfulStructured BorderLineStyle where
  decode_encode v _ := by
    cases v with
    | style line => exact map_decode_encode BorderLineStyle.style (allFinite_of_numbers_eq_nil rfl)
    | global keyword =>
      exact map_decode_encode BorderLineStyle.global (allFinite_of_numbers_eq_nil rfl)

instance : LawfulStructured Opacity where
  decode_encode v h := by
    cases v with
    | numberPercentage v => exact map_decode_encode Opacity.numberPercentage h
    | global keyword => exact map_decode_encode Opacity.global (allFinite_of_numbers_eq_nil rfl)

instance : LawfulStructured Rotation where
  decode_encode v h := by
    cases v with
    | none => rfl
    | angle turn => exact map_decode_encode Rotation.angle h
    | global keyword => exact map_decode_encode Rotation.global (allFinite_of_numbers_eq_nil rfl)

instance : LawfulStructured AspectRatio where
  decode_encode v h := by
    cases v with
    | auto => rfl
    | ratio shape => exact map_decode_encode AspectRatio.ratio h
    | autoRatio shape => exact map_decode_encode AspectRatio.autoRatio h
    | global keyword =>
      exact map_decode_encode AspectRatio.global (allFinite_of_numbers_eq_nil rfl)

instance : LawfulStructured TransitionDuration where
  decode_encode v h := by
    cases v with
    | times list => exact map_decode_encode TransitionDuration.times h
    | global keyword =>
      exact map_decode_encode TransitionDuration.global (allFinite_of_numbers_eq_nil rfl)

instance : LawfulStructured AnimationDirection where
  decode_encode v _ := by
    cases v with
    | normal | reverse | alternate | alternateReverse => rfl
    | global keyword =>
      exact map_decode_encode AnimationDirection.global (allFinite_of_numbers_eq_nil rfl)

instance (kind : PropertyKind) : LawfulStructured kind.Value := by
  cases kind with
  | size => exact inferInstanceAs (LawfulStructured Size)
  | margin => exact inferInstanceAs (LawfulStructured Margin)
  | borderLineStyle => exact inferInstanceAs (LawfulStructured BorderLineStyle)
  | opacity => exact inferInstanceAs (LawfulStructured Opacity)
  | rotation => exact inferInstanceAs (LawfulStructured Rotation)
  | aspectRatio => exact inferInstanceAs (LawfulStructured AspectRatio)
  | transitionDuration => exact inferInstanceAs (LawfulStructured TransitionDuration)
  | animationDirection => exact inferInstanceAs (LawfulStructured AnimationDirection)

instance {name : PropertyName} : LawfulStructured (Property name) where
  decode_encode p h := by
    have hvalue : AllFinite p.value := h
    exact map_decode_encode Property.mk hvalue

/-! ## All types -/

/-- The values of the type whose numbers are all finite are read back from their trees, each word of
each number included. -/
def SurvivesTrees (α : Type) [Structured α] [HasNumbers α] : Prop :=
  ∀ v : α, AllFinite v → decode (encode v) = .ok v

/-- Every type with a structured form is read back from its trees. -/
theorem structured_round_trip :
    (SurvivesTrees Number ∧ SurvivesTrees Percentage ∧ SurvivesTrees MathExpr) ∧
    (SurvivesTrees LengthUnit ∧ SurvivesTrees TimeUnit ∧ SurvivesTrees FrequencyUnit ∧
      SurvivesTrees AngleUnit ∧ SurvivesTrees ResolutionUnit ∧ SurvivesTrees Global ∧
      SurvivesTrees LineStyle) ∧
    (SurvivesTrees Length ∧ SurvivesTrees Time ∧ SurvivesTrees Frequency ∧ SurvivesTrees Angle ∧
      SurvivesTrees Resolution ∧ SurvivesTrees Ratio) ∧
    (SurvivesTrees LengthPercentage ∧ SurvivesTrees AnglePercentage ∧
      SurvivesTrees NumberPercentage ∧ SurvivesTrees TimePercentage) ∧
    (∀ kind : PropertyKind, SurvivesTrees kind.Value) ∧
    ∀ name : PropertyName, SurvivesTrees (Property name) := by
  refine ⟨⟨?_, ?_, ?_⟩, ⟨?_, ?_, ?_, ?_, ?_, ?_, ?_⟩, ⟨?_, ?_, ?_, ?_, ?_, ?_⟩,
    ⟨?_, ?_, ?_, ?_⟩, fun kind => ?_, fun name => ?_⟩
  all_goals exact decode_encode

/-- A list of durations that mixes units, with a negative zero and the smallest positive number. -/
theorem structured_round_trip_durations :
    let v : TransitionDuration :=
      .times [.s (.zero true), .ms (Binary64.ofBits 1), .s (Binary64.ofBits 0x7fefffffffffffff)]
    AllFinite v ∧ decode (encode v) = .ok v := by
  intro v
  have hfinite : AllFinite v := by
    change ∀ x ∈ [Binary64.zero true, Binary64.ofBits 1, Binary64.ofBits 0x7fefffffffffffff],
      x.IsFinite
    decide +kernel
  exact ⟨hfinite, structured_round_trip.2.2.2.2.1 .transitionDuration v hfinite⟩

end CssValues
