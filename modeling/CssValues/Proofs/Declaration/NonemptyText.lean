import CssValues.Proofs.Declaration.ReadBack
import CssValues.Structured.Property

/-!
# Properties with a text

Every value is written with at least one character, with one exception: a list of no times has the
empty text, and so has a declaration of `transition-duration` with it. A list of times that has a
first one is written as one should expect. Cut at its commas, its text is the texts of the times,
each but the first behind a space, and none of these is empty or has a comma of its own.
-/

namespace CssValues

/-- Every value of the type is written with at least one character. -/
class NonemptyText (α : Type) [CssText α] : Prop where
  cssText_ne_empty : ∀ value : α, cssText value ≠ ""

export NonemptyText (cssText_ne_empty)

/-! ## Values -/

/-- A text that starts with something is not empty. -/
theorem append_ne_empty_of_left {text : String} (h : text ≠ "") (rest : String) :
    text ++ rest ≠ "" :=
  mt (fun hempty => (String.append_eq_empty_iff.mp hempty).1) h

/-- A finite number has a text. -/
theorem finiteText_ne_empty (x : Binary64) : finiteText x ≠ "" := by
  obtain ⟨c, rest, hcons, -⟩ := exists_finiteText_eq_cons x
  intro hempty
  rw [hempty] at hcons
  cases hcons

/-- Every number has a text, finite or not. -/
theorem numberText_ne_empty (x : Binary64) : numberText x ≠ "" := by
  unfold numberText
  split
  next => exact append_ne_empty_of_left (append_ne_empty_of_left (by decide) _) _
  next => exact finiteText_ne_empty x

/-- Every number with a unit has a text, finite or not. -/
theorem dimensionText_ne_empty (x : Binary64) (unit : String) : dimensionText x unit ≠ "" := by
  unfold dimensionText
  split
  next =>
    simp only [String.append_assoc]
    exact append_ne_empty_of_left (by decide) _
  next => exact append_ne_empty_of_left (finiteText_ne_empty x) unit

instance : NonemptyText Number := ⟨fun x => numberText_ne_empty x.value⟩

instance : NonemptyText Percentage := ⟨fun x => dimensionText_ne_empty x.value "%"⟩

instance {U : Type} [Vocabulary U] : NonemptyText (Dimension U) :=
  ⟨fun x => dimensionText_ne_empty x.value (Vocabulary.token x.unit)⟩

/-- No token is empty, since a word has a first letter. -/
instance {α : Type} [Vocabulary α] [LawfulVocabulary α] : NonemptyText α where
  cssText_ne_empty member := by
    intro hempty
    have hword := Vocabulary.isWord_token member
    rw [show Vocabulary.token member = "" from hempty] at hword
    cases hword

instance {α : Type} [CssText α] [NonemptyText α] : NonemptyText (OrPercentage α) where
  cssText_ne_empty
    | .value x => cssText_ne_empty x
    | .percentage p => cssText_ne_empty p

instance : NonemptyText Ratio :=
  ⟨fun r => append_ne_empty_of_left (numberText_ne_empty r.width) _⟩

/-- A math expression without a text of its own is still written as a call. -/
instance : NonemptyText MathExpr where
  cssText_ne_empty e := by
    intro hempty
    have hchars : (cssText e).toList = [] := by
      rw [hempty]
      rfl
    by_cases hbare : e.isMathFunction = true
    · obtain ⟨name, -, hcall⟩ := MathExpr.isMathFunction_iff_exists_isCallOf.mp hbare
      obtain ⟨head, body, htrimmed, -⟩ := MathExpr.isCallOf_iff.mp hcall
      rw [MathExpr.toList_cssText_of_isMathFunction hbare, htrimmed] at hchars
      exact List.append_ne_nil_of_right_ne_nil head (List.cons_ne_nil _ _) hchars
    · rw [MathExpr.toList_cssText_of_not_isMathFunction hbare] at hchars
      cases hchars

instance : NonemptyText Size where
  cssText_ne_empty
    | .auto | .minContent | .maxContent | .fitContent none => by decide
    | .lengthPercentage value => cssText_ne_empty value
    | .fitContent (some _) => append_ne_empty_of_left (append_ne_empty_of_left (by decide) _) _
    | .math expression => cssText_ne_empty expression
    | .global keyword => cssText_ne_empty keyword

instance : NonemptyText Margin where
  cssText_ne_empty
    | .auto => by decide
    | .lengthPercentage value => cssText_ne_empty value
    | .math expression => cssText_ne_empty expression
    | .global keyword => cssText_ne_empty keyword

instance : NonemptyText BorderLineStyle where
  cssText_ne_empty
    | .style line => cssText_ne_empty line
    | .global keyword => cssText_ne_empty keyword

instance : NonemptyText Opacity where
  cssText_ne_empty
    | .numberPercentage value => cssText_ne_empty value
    | .global keyword => cssText_ne_empty keyword

instance : NonemptyText Rotation where
  cssText_ne_empty
    | .none => by decide
    | .angle turn => cssText_ne_empty turn
    | .global keyword => cssText_ne_empty keyword

instance : NonemptyText AspectRatio where
  cssText_ne_empty
    | .auto => by decide
    | .ratio shape => cssText_ne_empty shape
    | .autoRatio shape => append_ne_empty_of_left (by decide) (cssText shape)
    | .global keyword => cssText_ne_empty keyword

instance : NonemptyText AnimationDirection where
  cssText_ne_empty
    | .normal | .reverse | .alternate | .alternateReverse => by decide
    | .global keyword => cssText_ne_empty keyword

/-! ## Lists of times -/

/-- A dimension has a comma in its text only if its unit has one. -/
theorem comma_not_mem_dimensionText (x : Binary64) {unit : String} (h : ',' ∉ unit.toList) :
    ',' ∉ (dimensionText x unit).toList := by
  unfold dimensionText
  split
  next keyword hkeyword =>
    have hkeywords : ∀ keyword ∈ ["NaN", "infinity", "-infinity"], ',' ∉ keyword.toList := by
      decide
    simp [hkeywords keyword (nonFiniteKeyword?_cases hkeyword), h]
  next =>
    have hnumeral : ',' ∉ (finiteText x).toList :=
      fun hmem => absurd (isNumeralChar_of_mem_finiteText hmem) (by decide)
    simp [hnumeral, h]

/-- The text of a time has no comma in it. -/
theorem comma_not_mem_cssText (time : Time) : ',' ∉ (cssText time).toList := by
  apply comma_not_mem_dimensionText
  cases time.unit <;> decide

/-- The text of times is the texts of the times, a space before each but the first, with commas
between them. -/
theorem toList_cssText_times (first : Time) (others : List Time) :
    (cssText (TransitionDuration.times (first :: others))).toList = [','].intercalate
      ((cssText first).toList :: others.map fun time => ' ' :: (cssText time).toList) := by
  change (", ".intercalate ((first :: others).map cssText)).toList = _
  induction others generalizing first with
  | nil => simp
  | cons second others ih =>
    have hseparator : ", ".toList = [',', ' '] := rfl
    have hrest := ih second
    rw [List.map_cons] at hrest
    rw [List.map_cons, List.map_cons, String.intercalate_cons_cons, String.toList_append,
      String.toList_append, hrest, hseparator, List.map_cons, List.intercalate_cons_cons,
      Block.intercalate_cons_head]
    simp only [List.append_assoc, List.cons_append, List.nil_append]

/-- The text of times is cut at its commas into the texts of the times, each but the first behind a
space. -/
theorem splitOn_cssText_times (first : Time) (others : List Time) :
    (cssText (TransitionDuration.times (first :: others))).toList.splitOn ',' =
      (cssText first).toList :: others.map fun time => ' ' :: (cssText time).toList := by
  rw [toList_cssText_times]
  refine List.splitOn_intercalate ',' ?_ (List.cons_ne_nil _ _)
  rw [List.forall_mem_cons, List.forall_mem_map]
  refine ⟨comma_not_mem_cssText first, fun time _ => ?_⟩
  rw [List.mem_cons, not_or]
  exact ⟨by decide, comma_not_mem_cssText time⟩

/-- A list of times has an empty text only if it has no times. -/
theorem cssText_times_eq_empty_iff (times : List Time) :
    cssText (TransitionDuration.times times) = "" ↔ times = [] := by
  cases times with
  | nil => exact ⟨fun _ => rfl, fun _ => rfl⟩
  | cons first others =>
    refine iff_of_false (fun hempty => ?_) (List.cons_ne_nil _ _)
    have hsplit := splitOn_cssText_times first others
    rw [hempty] at hsplit
    exact cssText_ne_empty first (String.toList_eq_nil_iff.mp (List.cons.inj hsplit).1.symm)

/-! ## Reading no times -/

/-- What is built from content has read the content before. -/
theorem exists_of_map_eq_ok {α β : Type} {build : α → β} {read : Except DecodeError α} {value : β}
    (h : build <$> read = .ok value) : ∃ content, read = .ok content ∧ build content = value := by
  cases read with
  | error error => cases h
  | ok content => exact ⟨content, rfl, Except.ok.inj h⟩

/-- The list of no trees is the one tree that is read as no items. -/
theorem decode_eq_nil_iff {α : Type} [Structured α] {tree : Tree} :
    decode tree = Except.ok ([] : List α) ↔ tree = .list [] := by
  refine ⟨fun h => ?_, fun h => h ▸ rfl⟩
  cases tree with
  | list items =>
    cases items with
    | nil => rfl
    | cons item items =>
      change (item :: items).mapM decode = Except.ok ([] : List α) at h
      rw [List.mapM_cons] at h
      cases hitem : (decode item : Except DecodeError α) with
      | error error =>
        rw [hitem] at h
        cases h
      | ok first =>
        rw [hitem] at h
        change List.cons first <$> items.mapM decode = _ at h
        obtain ⟨others, -, hnil⟩ := exists_of_map_eq_ok h
        cases hnil
  | null | bool | number | text | record => cases h

/-- The record of no times is the one tree that is read as no times. -/
theorem decode_eq_no_times_iff {tree : Tree} :
    decode tree = Except.ok (TransitionDuration.times []) ↔
      tree = .alternative "Times" (.list []) := by
  refine ⟨fun h => ?_, fun h => h ▸ rfl⟩
  simp only [decode] at h
  split at h
  next content =>
    change TransitionDuration.times <$> (decode content : Except DecodeError (List Time)) = _ at h
    obtain ⟨times, hcontent, hnil⟩ := exists_of_map_eq_ok h
    cases hnil
    rw [decode_eq_nil_iff.mp hcontent]
  next content =>
    change TransitionDuration.global <$> (decode content : Except DecodeError Global) = _ at h
    obtain ⟨keyword, -, hglobal⟩ := exists_of_map_eq_ok h
    cases hglobal
  next => cases h

/-! ## Properties -/

/-- The value is a list of no times. -/
def PropertyKind.HasNoTimes : (kind : PropertyKind) → kind.Value → Prop
  | .transitionDuration, value => value = TransitionDuration.times []
  | _, _ => False

/-- A value has the empty text exactly when it is a list of no times. -/
theorem PropertyKind.cssText_eq_empty_iff {kind : PropertyKind} {value : kind.Value} :
    cssText value = "" ↔ kind.HasNoTimes value := by
  cases kind with
  | size => exact iff_of_false (cssText_ne_empty (α := Size) value) nofun
  | margin => exact iff_of_false (cssText_ne_empty (α := Margin) value) nofun
  | borderLineStyle => exact iff_of_false (cssText_ne_empty (α := BorderLineStyle) value) nofun
  | opacity => exact iff_of_false (cssText_ne_empty (α := Opacity) value) nofun
  | rotation => exact iff_of_false (cssText_ne_empty (α := Rotation) value) nofun
  | aspectRatio => exact iff_of_false (cssText_ne_empty (α := AspectRatio) value) nofun
  | transitionDuration =>
    cases value with
    | times times =>
      refine (cssText_times_eq_empty_iff times).trans ⟨fun h => h ▸ rfl, fun h => ?_⟩
      cases h
      rfl
    | global keyword => exact iff_of_false (cssText_ne_empty keyword) nofun
  | animationDirection =>
    exact iff_of_false (cssText_ne_empty (α := AnimationDirection) value) nofun

/-- The value of a declaration is empty exactly when the property is a transition duration of no
times. A tree is read as that value only if it is the record of no times. The texts of times and
the tokens of keywords are not empty, and the text of a first time and others is cut at its commas
into their texts, each but the first behind a space. -/
theorem declaration_value_eq_empty_iff {name : PropertyName} (p : Property name) (tree : Tree)
    (keyword : Global) (first : Time) (others : List Time) :
    (p.declaration.value = "" ↔ name.kind.HasNoTimes p.value) ∧
    (decode tree = Except.ok (TransitionDuration.times []) ↔
      tree = .alternative "Times" (.list [])) ∧
    (cssText (TransitionDuration.global keyword) = Vocabulary.token keyword ∧
      Vocabulary.token keyword ≠ "") ∧
    (∀ time ∈ first :: others, cssText time ≠ "") ∧
    (cssText (TransitionDuration.times (first :: others))).toList.splitOn ',' =
      (cssText first).toList :: others.map fun time => ' ' :: (cssText time).toList := by
  refine ⟨PropertyKind.cssText_eq_empty_iff, decode_eq_no_times_iff,
    ⟨rfl, cssText_ne_empty keyword⟩, ?_, splitOn_cssText_times first others⟩
  intro time _
  exact cssText_ne_empty time

/-- A transition duration of no times is read from a tree, and is declared with the empty value. -/
theorem no_times_declared_empty :
    let p : Property .transitionDuration := ⟨.times []⟩
    decode (.alternative "Times" (.list [])) = Except.ok p ∧ p.declaration.value = "" ∧
      cssText p.declaration = "transition-duration: ;" := by
  exact ⟨rfl, rfl, by decide⟩

end CssValues
