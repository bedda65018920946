import CssValues.Dimension.Frequency
import CssValues.Property.Basic
import CssValues.Proofs.CssText.Formed

/-!
# Equal texts

Values of the numeric types, of ratios and of properties that have neither NaN nor a math expression
in them have the same text exactly when they are equal. The values of a property are keywords,
quantities, or quantities behind an opening, and its keywords differ from each other.
-/

namespace CssValues

instance : Concrete Size where
  IsConcrete
    | .lengthPercentage x => IsConcrete x
    | .fitContent limit => ∀ x ∈ limit, IsConcrete x
    | .math _ => False
    | .auto | .minContent | .maxContent | .global _ => True

instance : Concrete Margin where
  IsConcrete
    | .lengthPercentage x => IsConcrete x
    | .math _ => False
    | .auto | .global _ => True

instance : Concrete BorderLineStyle := ⟨fun _ => True⟩

instance : Concrete Opacity where
  IsConcrete
    | .numberPercentage x => IsConcrete x
    | .global _ => True

instance : Concrete Rotation where
  IsConcrete
    | .angle x => IsConcrete x
    | .none | .global _ => True

instance : Concrete AspectRatio where
  IsConcrete
    | .ratio r | .autoRatio r => IsConcrete r
    | .auto | .global _ => True

instance : Concrete TransitionDuration where
  IsConcrete
    | .times list => ∀ x ∈ list, IsConcrete x
    | .global _ => True

instance : Concrete AnimationDirection := ⟨fun _ => True⟩

instance : (kind : PropertyKind) → Concrete kind.Value
  | .size => inferInstanceAs (Concrete Size)
  | .margin => inferInstanceAs (Concrete Margin)
  | .borderLineStyle => inferInstanceAs (Concrete BorderLineStyle)
  | .opacity => inferInstanceAs (Concrete Opacity)
  | .rotation => inferInstanceAs (Concrete Rotation)
  | .aspectRatio => inferInstanceAs (Concrete AspectRatio)
  | .transitionDuration => inferInstanceAs (Concrete TransitionDuration)
  | .animationDirection => inferInstanceAs (Concrete AnimationDirection)

instance {name : PropertyName} : Concrete (Property name) := ⟨fun p => IsConcrete p.value⟩

/-! ## Values of properties -/

/-- Members of a vocabulary are equal exactly when their keywords are. -/
theorem beq_eq_keyword_beq {α : Type} [DecidableEq α] [Vocabulary α] [LawfulVocabulary α]
    (member other : α) :
    (member == other) =
      (Form.keyword (Vocabulary.token member) == .keyword (Vocabulary.token other)) := by
  change _ = (Vocabulary.token member == Vocabulary.token other)
  rw [Bool.eq_iff_iff, beq_iff_eq, beq_iff_eq]
  exact ⟨fun h => by rw [h], Vocabulary.token_injective⟩

/-- Every keyword of a vocabulary has a valid form. -/
theorem isValid_keyword {α : Type} [Vocabulary α] [LawfulVocabulary α] (member : α) :
    (Form.keyword (Vocabulary.token member)).IsValid :=
  Vocabulary.isWord_token member

instance : Formed Size where
  layout := .commas
  form
    | .auto => .keyword "auto"
    | .lengthPercentage x => .plain [quantity x]
    | .minContent => .keyword "min-content"
    | .maxContent => .keyword "max-content"
    | .fitContent none => .keyword "fit-content"
    | .fitContent (some limit) => .enclosed [quantity limit]
    | .math e => .keyword e.expression
    | .global keyword => .keyword (Vocabulary.token keyword)
  isValid_form {a} h := by
    have hkeyword : ∀ token ∈ ["auto", "min-content", "max-content", "fit-content"],
        isWord token.toList = true := by decide
    cases a with
    | auto | minContent | maxContent => exact hkeyword _ (by decide)
    | lengthPercentage x => exact forall_mem_singleton_quantity (α := LengthPercentage) h
    | fitContent limit =>
      cases limit with
      | none => exact hkeyword _ (by decide)
      | some limit => exact forall_mem_singleton_quantity (α := LengthPercentage) (h limit rfl)
    | math e => contradiction
    | global keyword => exact isValid_keyword keyword
  cssText_eq {a} h := by
    cases a with
    | auto | minContent | maxContent | global keyword => rfl
    | lengthPercentage x => exact cssText_eq_joined _ x
    | fitContent limit =>
      cases limit with
      | none => rfl
      | some limit =>
        change "fit-content(" ++ cssText limit ++ ")" = _
        rw [cssText_eq_joined .commas limit]
        rfl
    | math e => contradiction
  beq_form {a b} ha hb := by
    cases a with
    | auto | minContent | maxContent =>
      cases b with
      | fitContent limit => cases limit <;> rfl
      | math e => contradiction
      | global keyword => cases keyword <;> rfl
      | _ => rfl
    | lengthPercentage x =>
      cases b with
      | lengthPercentage y => exact beq_eq_singleton_beq x y
      | fitContent limit => cases limit <;> rfl
      | math e => contradiction
      | _ => rfl
    | fitContent limit =>
      cases limit with
      | none =>
        cases b with
        | fitContent limit => cases limit <;> rfl
        | math e => contradiction
        | global keyword => cases keyword <;> rfl
        | _ => rfl
      | some limit =>
        cases b with
        | fitContent limit' =>
          cases limit' with
          | none => rfl
          | some limit' => exact beq_eq_singleton_beq limit limit'
        | math e => contradiction
        | _ => rfl
    | math e => contradiction
    | global keyword =>
      cases b with
      | auto | minContent | maxContent => cases keyword <;> rfl
      | lengthPercentage y => rfl
      | fitContent limit =>
        cases limit with
        | none => cases keyword <;> rfl
        | some limit => rfl
      | math e => contradiction
      | global keyword' => exact beq_eq_keyword_beq keyword keyword'

instance : Formed Margin where
  layout := .commas
  form
    | .auto => .keyword "auto"
    | .lengthPercentage x => .plain [quantity x]
    | .math e => .keyword e.expression
    | .global keyword => .keyword (Vocabulary.token keyword)
  isValid_form {a} h := by
    cases a with
    | auto => exact (by decide : isWord "auto".toList = true)
    | lengthPercentage x => exact forall_mem_singleton_quantity (α := LengthPercentage) h
    | math e => contradiction
    | global keyword => exact isValid_keyword keyword
  cssText_eq {a} h := by
    cases a with
    | auto | global keyword => rfl
    | lengthPercentage x => exact cssText_eq_joined _ x
    | math e => contradiction
  beq_form {a b} ha hb := by
    cases a with
    | auto =>
      cases b with
      | math e => contradiction
      | global keyword => cases keyword <;> rfl
      | _ => rfl
    | lengthPercentage x =>
      cases b with
      | lengthPercentage y => exact beq_eq_singleton_beq x y
      | math e => contradiction
      | _ => rfl
    | math e => contradiction
    | global keyword =>
      cases b with
      | auto => cases keyword <;> rfl
      | lengthPercentage y => rfl
      | math e => contradiction
      | global keyword' => exact beq_eq_keyword_beq keyword keyword'

/-- No style of a line is a keyword of every property. -/
theorem LineStyle.token_beq_eq_false (style : LineStyle) (keyword : Global) :
    (Vocabulary.token style == Vocabulary.token keyword) = false := by
  have hall : ∀ style ∈ (Vocabulary.all : List LineStyle),
      ∀ keyword ∈ (Vocabulary.all : List Global),
        (Vocabulary.token style == Vocabulary.token keyword) = false := by decide +kernel
  exact hall style (LawfulVocabulary.mem_all style) keyword (LawfulVocabulary.mem_all keyword)

instance : Formed BorderLineStyle where
  layout := .commas
  form
    | .style style => .keyword (Vocabulary.token style)
    | .global keyword => .keyword (Vocabulary.token keyword)
  isValid_form {a} _ := by
    cases a with
    | style style => exact isValid_keyword style
    | global keyword => exact isValid_keyword keyword
  cssText_eq {a} _ := by cases a <;> rfl
  beq_form {a b} _ _ := by
    cases a with
    | style style =>
      cases b with
      | style style' => exact beq_eq_keyword_beq style style'
      | global keyword => exact (style.token_beq_eq_false keyword).symm
    | global keyword =>
      cases b with
      | style style => exact (BEq.comm.trans (style.token_beq_eq_false keyword)).symm
      | global keyword' => exact beq_eq_keyword_beq keyword keyword'

instance : Formed Opacity where
  layout := .commas
  form
    | .numberPercentage x => .plain [quantity x]
    | .global keyword => .keyword (Vocabulary.token keyword)
  isValid_form {a} h := by
    cases a with
    | numberPercentage x => exact forall_mem_singleton_quantity (α := NumberPercentage) h
    | global keyword => exact isValid_keyword keyword
  cssText_eq {a} _ := by
    cases a with
    | numberPercentage x => exact cssText_eq_joined _ x
    | global keyword => rfl
  beq_form {a b} _ _ := by
    cases a with
    | numberPercentage x =>
      cases b with
      | numberPercentage y => exact beq_eq_singleton_beq x y
      | global keyword => rfl
    | global keyword =>
      cases b with
      | numberPercentage y => rfl
      | global keyword' => exact beq_eq_keyword_beq keyword keyword'

instance : Formed Rotation where
  layout := .commas
  form
    | .none => .keyword "none"
    | .angle x => .plain [quantity x]
    | .global keyword => .keyword (Vocabulary.token keyword)
  isValid_form {a} h := by
    cases a with
    | none => exact (by decide : isWord "none".toList = true)
    | angle x => exact forall_mem_singleton_quantity (α := Angle) h
    | global keyword => exact isValid_keyword keyword
  cssText_eq {a} _ := by
    cases a with
    | none | global keyword => rfl
    | angle x => exact cssText_eq_joined _ x
  beq_form {a b} _ _ := by
    cases a with
    | none =>
      cases b with
      | global keyword => cases keyword <;> rfl
      | _ => rfl
    | angle x =>
      cases b with
      | angle y => exact beq_eq_singleton_beq x y
      | _ => rfl
    | global keyword =>
      cases b with
      | none => cases keyword <;> rfl
      | angle y => rfl
      | global keyword' => exact beq_eq_keyword_beq keyword keyword'

instance : Formed AspectRatio where
  layout := .slash
  form
    | .auto => .keyword "auto"
    | .ratio r => .plain r.components
    | .autoRatio r => .enclosed r.components
    | .global keyword => .keyword (Vocabulary.token keyword)
  isValid_form {a} h := by
    cases a with
    | auto => exact (by decide : isWord "auto".toList = true)
    | ratio r | autoRatio r => exact Ratio.isValid_of_mem_components h
    | global keyword => exact isValid_keyword keyword
  cssText_eq {a} _ := by
    cases a with
    | auto | global keyword => rfl
    | ratio r => exact r.cssText_eq_joined
    | autoRatio r =>
      change "auto " ++ cssText r = "auto " ++ Layout.slash.joined r.components ++ ""
      rw [r.cssText_eq_joined, String.append_empty]
  beq_form {a b} _ _ := by
    cases a with
    | auto =>
      cases b with
      | global keyword => cases keyword <;> rfl
      | _ => rfl
    | ratio r =>
      cases b with
      | ratio s => exact r.beq_eq_components_beq s
      | _ => rfl
    | autoRatio r =>
      cases b with
      | autoRatio s => exact r.beq_eq_components_beq s
      | _ => rfl
    | global keyword =>
      cases b with
      | auto => cases keyword <;> rfl
      | ratio s | autoRatio s => rfl
      | global keyword' => exact beq_eq_keyword_beq keyword keyword'

/-- Lists are equal exactly when their lists of quantities are. -/
theorem beq_eq_map_quantity_beq {α : Type} [BEq α] [CssText α] [Concrete α] [Numeric α]
    (list others : List α) : (list == others) = (list.map quantity == others.map quantity) := by
  induction list generalizing others with
  | nil => cases others <;> rfl
  | cons x list ih =>
    cases others with
    | nil => rfl
    | cons y others =>
      change (x == y && list == others) =
        (quantity x == quantity y && list.map quantity == others.map quantity)
      rw [Numeric.beq_quantity, ih]

instance : Formed TransitionDuration where
  layout := .commas
  form
    | .times list => .plain (list.map quantity)
    | .global keyword => .keyword (Vocabulary.token keyword)
  isValid_form {a} h := by
    cases a with
    | times list => exact List.forall_mem_map.mpr fun x hx => isValid_quantity (h x hx)
    | global keyword => exact isValid_keyword keyword
  cssText_eq {a} _ := by
    cases a with
    | times list =>
      change ", ".intercalate (list.map cssText) =
        ", ".intercalate ((list.map quantity).map Quantity.text)
      rw [List.map_map]
      rfl
    | global keyword => rfl
  beq_form {a b} _ _ := by
    cases a with
    | times list =>
      cases b with
      | times others => exact beq_eq_map_quantity_beq list others
      | global keyword => rfl
    | global keyword =>
      cases b with
      | times others => rfl
      | global keyword' => exact beq_eq_keyword_beq keyword keyword'

namespace AnimationDirection

/-- Every direction is in the list of directions. -/
theorem mem_all (direction : AnimationDirection) : direction ∈ all := by
  cases direction with
  | normal | reverse | alternate | alternateReverse => decide
  | global keyword => cases keyword <;> decide

instance : Formed AnimationDirection where
  layout := .commas
  form direction := .keyword (cssText direction)
  isValid_form {direction} _ := by
    have hall : ∀ direction ∈ all, isWord (cssText direction).toList = true := by decide +kernel
    exact hall direction direction.mem_all
  cssText_eq _ := rfl
  beq_form {direction other} _ _ := by
    have hall : ∀ direction ∈ all, ∀ other ∈ all,
        (direction == other) = (cssText direction == cssText other) := by decide +kernel
    exact hall direction direction.mem_all other other.mem_all

end AnimationDirection

/-! ## All types -/

/-- Two values of one type, without NaN and without math expressions, are equal exactly when their
texts are. -/
theorem cssText_faithful :
    (TextIsFaithful Number ∧ TextIsFaithful Percentage ∧ TextIsFaithful Length ∧
      TextIsFaithful Time ∧ TextIsFaithful Frequency ∧ TextIsFaithful Angle ∧
      TextIsFaithful Resolution ∧ TextIsFaithful Ratio ∧ TextIsFaithful LengthPercentage ∧
      TextIsFaithful AnglePercentage ∧ TextIsFaithful NumberPercentage ∧
      TextIsFaithful TimePercentage) ∧
    (∀ kind : PropertyKind, TextIsFaithful kind.Value) ∧
    ∀ name : PropertyName, TextIsFaithful (Property name) := by
  have hkind (kind : PropertyKind) : TextIsFaithful kind.Value := by
    cases kind with
    | size => exact textIsFaithful Size
    | margin => exact textIsFaithful Margin
    | borderLineStyle => exact textIsFaithful BorderLineStyle
    | opacity => exact textIsFaithful Opacity
    | rotation => exact textIsFaithful Rotation
    | aspectRatio => exact textIsFaithful AspectRatio
    | transitionDuration => exact textIsFaithful TransitionDuration
    | animationDirection => exact textIsFaithful AnimationDirection
  refine ⟨?_, hkind, fun name p q hp hq => hkind name.kind p.value q.value hp hq⟩
  exact ⟨textIsFaithful Number, textIsFaithful Percentage, textIsFaithful Length,
    textIsFaithful Time, textIsFaithful Frequency, textIsFaithful Angle,
    textIsFaithful Resolution, textIsFaithful Ratio, textIsFaithful LengthPercentage,
    textIsFaithful AnglePercentage, textIsFaithful NumberPercentage, textIsFaithful TimePercentage⟩

/-- Two lists of durations that differ in the sign of a zero have the same text. -/
theorem cssText_faithful_signed_zero :
    let a : TransitionDuration := .times [.s (.zero true), .ms (.infinity false)]
    let b : TransitionDuration := .times [.s (.zero false), .ms (.infinity false)]
    IsConcrete a ∧ IsConcrete b ∧ (a == b) = true ∧ cssText a = cssText b := by
  intro a b
  have hconcrete (sign : Bool) :
      IsConcrete (TransitionDuration.times [.s (.zero sign), .ms (.infinity false)]) := by
    refine List.forall_mem_cons.mpr ⟨?_, List.forall_mem_singleton.mpr ?_⟩
    · exact Nat.not_lt_zero _
    · exact Nat.lt_irrefl _
  have hbeq : (a == b) = true := by decide +kernel
  exact ⟨hconcrete true, hconcrete false, hbeq,
    (cssText_faithful.2.1 .transitionDuration a b (hconcrete true) (hconcrete false)).mp hbeq⟩

end CssValues
