import CssValues.Value
import CssValues.Proofs.MathExpr.Call
import CssValues.Proofs.NumericText
import CssValues.Proofs.Vocabulary

/-!
# Math functions over values

The text of every value is balanced, unless a math expression with an unbalanced text is in it. So
`min`, `max` and `clamp` over values are bare calls, and they are balanced again: they may stand
among the values of the next call, to any depth.
-/

namespace CssValues

open MathExpr (Balanced IsPlain)

/-! ## Texts of values -/

/-- The characters in the texts of values, parentheses and the star of a product apart. -/
def isInertChar (c : Char) : Bool := isValueChar c || [',', '/', ' '].contains c

/-- Inert characters mean nothing to the scanner, and cannot start a comment after a slash. -/
theorem isPlain_of_isInertChar {c : Char} (h : isInertChar c = true) : IsPlain c ∧ c ≠ '*' := by
  have hne {d : Char} (hd : isInertChar d = false) : c ≠ d := by
    intro heq
    rw [heq, hd] at h
    contradiction
  refine ⟨⟨hne rfl, ?_, hne rfl, hne rfl⟩, hne rfl⟩
  intro hquote
  rcases hquote with hdouble | hsingle
  · exact hne rfl hdouble
  · exact hne rfl hsingle

/-- A text of inert characters is balanced. -/
theorem balanced_of_inert {text : List Char} (h : ∀ c ∈ text, isInertChar c = true) :
    Balanced text :=
  .of_forall_plain fun c hc => isPlain_of_isInertChar (h c hc)

/-- A call is balanced if its arguments are. -/
theorem balanced_call {name arguments : List Char} (hname : name.all isInertChar = true)
    (harguments : Balanced arguments) : Balanced (name ++ '(' :: (arguments ++ [')'])) :=
  (balanced_of_inert (List.all_eq_true.mp hname)).append harguments.parenthesized (by simp)

/-- The characters of numerals and words are inert. -/
theorem isInertChar_of_isValueChar {c : Char} (h : isValueChar c = true) :
    isInertChar c = true := by
  rw [isInertChar, h, Bool.true_or]

/-- The characters of numerals are inert. -/
theorem isInertChar_of_isNumeralChar {c : Char} (h : isNumeralChar c = true) :
    isInertChar c = true :=
  isInertChar_of_isValueChar (isValueChar_of_isNumeralChar h)

/-- The characters of words are inert. -/
theorem isInertChar_of_mem_word {text : List Char} (h : isWord text = true) {c : Char}
    (hc : c ∈ text) : isInertChar c = true :=
  isInertChar_of_isValueChar (isValueChar_of_isWordChar (isWordChar_of_mem h hc))

/-- The keywords of values that are not finite. -/
theorem nonFiniteKeyword?_cases {x : Binary64} {keyword : String}
    (h : nonFiniteKeyword? x = some keyword) : keyword ∈ ["NaN", "infinity", "-infinity"] := by
  unfold nonFiniteKeyword? at h
  split at h
  · simp [← Option.some.inj h]
  · split at h
    · rw [← Option.some.inj h]
      split <;> simp
    · contradiction

/-- The characters of the keywords of values that are not finite are inert. -/
theorem isInertChar_of_mem_keyword {keyword : String}
    (h : keyword ∈ ["NaN", "infinity", "-infinity"]) :
    ∀ c ∈ keyword.toList, isInertChar c = true := by
  have hall : ∀ keyword ∈ ["NaN", "infinity", "-infinity"],
      keyword.toList.all isInertChar = true := by decide
  exact List.all_eq_true.mp (hall keyword h)

/-- The text of a number is balanced. -/
theorem balanced_numberText (x : Binary64) : Balanced (numberText x).toList := by
  unfold numberText
  split
  next keyword hkeyword =>
    have hinert := isInertChar_of_mem_keyword (nonFiniteKeyword?_cases hkeyword)
    have hcall := balanced_call (by decide : "calc".toList.all isInertChar = true)
      (balanced_of_inert hinert)
    simpa using hcall
  next =>
    exact balanced_of_inert fun _ hc =>
      isInertChar_of_isNumeralChar (isNumeralChar_of_mem_finiteText hc)

/-- The text of a dimension is balanced, also when the value is not finite: the star of its product
stands between spaces. -/
theorem balanced_dimensionText (x : Binary64) {unit : String}
    (hunit : ∀ c ∈ unit.toList, isInertChar c = true) : Balanced (dimensionText x unit).toList := by
  unfold dimensionText
  split
  next keyword hkeyword =>
    have hinert := isInertChar_of_mem_keyword (nonFiniteKeyword?_cases hkeyword)
    have hone : Balanced (' ' :: '1' :: unit.toList) := by
      refine balanced_of_inert fun c hc => ?_
      simp only [List.mem_cons] at hc
      rcases hc with hspace | hdigit | hc
      · rw [hspace]
        decide
      · rw [hdigit]
        decide
      · exact hunit c hc
    have hproduct : Balanced (' ' :: '*' :: ' ' :: '1' :: unit.toList) :=
      .plain (by decide) (by simp) (.plain (by decide) (by simp) hone)
    have hcall := balanced_call (by decide : "calc".toList.all isInertChar = true)
      ((balanced_of_inert hinert).append hproduct (by simp))
    simpa using hcall
  next =>
    refine balanced_of_inert fun c hc => ?_
    rw [String.toList_append, List.mem_append] at hc
    rcases hc with hnumeral | hc
    · exact isInertChar_of_isNumeralChar (isNumeralChar_of_mem_finiteText hnumeral)
    · exact hunit c hc

/-- The text of every value of the type is balanced. -/
class BalancedText (α : Type) [CssText α] : Prop where
  balanced_cssText : ∀ value : α, Balanced (cssText value).toList

export BalancedText (balanced_cssText)

instance : BalancedText Number := ⟨fun x => balanced_numberText x.value⟩

instance : BalancedText Percentage :=
  ⟨fun x => balanced_dimensionText x.value (List.all_eq_true.mp (by decide))⟩

instance {α : Type} [Vocabulary α] [LawfulVocabulary α] : BalancedText α where
  balanced_cssText value := balanced_of_inert fun _ hc =>
    isInertChar_of_mem_word (Vocabulary.isWord_token value) hc

instance {U : Type} [Vocabulary U] [LawfulVocabulary U] : BalancedText (Dimension U) where
  balanced_cssText x := balanced_dimensionText x.value fun _ hc =>
    isInertChar_of_mem_word (Vocabulary.isWord_token x.unit) hc

instance : BalancedText Resolution := ⟨fun r => balanced_cssText r.toDimension⟩

instance {α : Type} [CssText α] [BalancedText α] : BalancedText (OrPercentage α) where
  balanced_cssText
    | .value x => balanced_cssText x
    | .percentage p => balanced_cssText p

/-- The slash of a ratio stands between spaces, so it starts no comment. -/
instance : BalancedText Ratio where
  balanced_cssText r := by
    simp only [cssText]
    split
    · simpa using balanced_numberText r.width
    · have hheight : Balanced (' ' :: '/' :: ' ' :: (numberText r.height).toList) :=
        .plain (by decide) (by simp) (.plain (by decide) (by simp)
          (.plain (by decide) (by simp) (balanced_numberText r.height)))
      simpa using (balanced_numberText r.width).append hheight (by simp)

/-- The text of a math expression is balanced if the expression is. -/
theorem MathExpr.balanced_cssText_of_trimmed {e : MathExpr} (h : Balanced e.trimmed) :
    Balanced (cssText e).toList := by
  by_cases hbare : e.isMathFunction = true
  · rw [toList_cssText_of_isMathFunction hbare]
    exact h
  · rw [toList_cssText_of_not_isMathFunction hbare]
    exact balanced_call (by decide) h

/-- Texts with commas between them are balanced if each of them is. -/
theorem balanced_intercalate {texts : List String} (h : ∀ text ∈ texts, Balanced text.toList) :
    Balanced (", ".intercalate texts).toList := by
  induction texts with
  | nil => exact .nil
  | cons text texts ih =>
    rw [List.forall_mem_cons] at h
    cases texts with
    | nil => simpa using h.1
    | cons other texts =>
      have hrest : Balanced (',' :: ' ' :: (", ".intercalate (other :: texts)).toList) :=
        .plain (by decide) (by simp) (.plain (by decide) (by simp) (ih h.2))
      rw [String.intercalate_cons_cons]
      simpa using h.1.append hrest (by simp)

/-! ## Nested calls -/

/-- The math expressions of a value are balanced, or come from calls over such values. -/
inductive Value.WellNested : Value → Prop where
  | other {value : Value} : (∀ e, value ≠ .math e) → WellNested value
  | balanced {e : MathExpr} : Balanced e.trimmed → WellNested (.math e)
  | minOf {values : List Value} :
    (∀ value ∈ values, WellNested value) → WellNested (.math (.minOf values))
  | maxOf {values : List Value} :
    (∀ value ∈ values, WellNested value) → WellNested (.math (.maxOf values))
  | min {arguments : String} : Balanced arguments.toList → WellNested (.math (.min arguments))
  | max {arguments : String} : Balanced arguments.toList → WellNested (.math (.max arguments))
  | clamp {least preferred greatest : String} :
    Balanced (least ++ ", " ++ preferred ++ ", " ++ greatest).toList →
      WellNested (.math (.clamp least preferred greatest))

/-- The text of a call of one of the three functions is balanced if its arguments are. -/
theorem MathExpr.balanced_cssText_call {name : String} (hname : name ∈ ["min", "max", "clamp"])
    {arguments : String} (harguments : Balanced arguments.toList) :
    Balanced (cssText (call name arguments)).toList := by
  have hinert : ∀ name ∈ ["min", "max", "clamp"], name.toList.all isInertChar = true := by
    decide
  rw [cssText_call hname harguments, toList_expression_call]
  exact balanced_call (hinert name hname) harguments

/-- The text of a well nested value is balanced. -/
theorem Value.WellNested.balanced_cssText {value : Value} (h : value.WellNested) :
    Balanced (cssText value).toList := by
  induction h with
  | @other value hmath =>
    cases value with
    | math e => exact absurd rfl (hmath e)
    | number x | percentage x | length x | time x | frequency x | angle x | resolution x | ratio x
    | lengthPercentage x | anglePercentage x | numberPercentage x | timePercentage x | global x
    | lineStyle x => exact BalancedText.balanced_cssText x
  | balanced he => exact MathExpr.balanced_cssText_of_trimmed he
  | minOf _ ih =>
    exact MathExpr.balanced_cssText_call (by decide)
      (balanced_intercalate (List.forall_mem_map.mpr ih))
  | maxOf _ ih =>
    exact MathExpr.balanced_cssText_call (by decide)
      (balanced_intercalate (List.forall_mem_map.mpr ih))
  | min harguments => exact MathExpr.balanced_cssText_call (by decide) harguments
  | max harguments => exact MathExpr.balanced_cssText_call (by decide) harguments
  | clamp harguments => exact MathExpr.balanced_cssText_call (by decide) harguments

/-- The texts of well nested values, with commas between them, are balanced. -/
theorem balanced_commaSeparated {values : List Value} (h : ∀ value ∈ values, value.WellNested) :
    Balanced (commaSeparated values).toList :=
  balanced_intercalate
    (List.forall_mem_map.mpr fun value hvalue => (h value hvalue).balanced_cssText)

namespace MathExpr

/-- The least and the greatest of well nested values are bare calls, written as the name and the
texts of the values with commas between them; so are the calls over balanced arguments. -/
theorem factories_stand_alone :
    (∀ values : List Value, (∀ value ∈ values, value.WellNested) →
      ((minOf values).isMathFunction = true ∧
        cssText (minOf values) = (minOf values).expression ∧
        (minOf values).expression = "min(" ++ ", ".intercalate (values.map cssText) ++ ")") ∧
      (maxOf values).isMathFunction = true ∧
        cssText (maxOf values) = (maxOf values).expression ∧
        (maxOf values).expression = "max(" ++ ", ".intercalate (values.map cssText) ++ ")") ∧
    (∀ arguments : String, Balanced arguments.toList →
      cssText (min arguments) = "min(" ++ arguments ++ ")" ∧
        cssText (max arguments) = "max(" ++ arguments ++ ")") ∧
    ∀ least preferred greatest : String,
      Balanced (least ++ ", " ++ preferred ++ ", " ++ greatest).toList →
        cssText (clamp least preferred greatest) =
          "clamp(" ++ (least ++ ", " ++ preferred ++ ", " ++ greatest) ++ ")" := by
  refine ⟨fun values hvalues => ?_, fun arguments harguments => ?_,
    fun least preferred greatest harguments => cssText_call (by decide) harguments⟩
  · have harguments := balanced_commaSeparated hvalues
    exact ⟨⟨isMathFunction_call (by decide) harguments, cssText_call (by decide) harguments, rfl⟩,
      isMathFunction_call (by decide) harguments, cssText_call (by decide) harguments, rfl⟩
  · exact ⟨cssText_call (by decide) harguments, cssText_call (by decide) harguments⟩

/-- A ratio, an infinite length, and a call over a difference and a keyword stand in one call. -/
theorem factories_stand_alone_nested :
    let values : List Value := [.ratio .widescreen, .length (.px (Binary64.infinity true)),
      .math (maxOf [Value.math ⟨"1px - 2em"⟩, .global .inherit])]
    (∀ value ∈ values, value.WellNested) ∧ (minOf values).isMathFunction = true ∧
      Balanced "1px - 2em".toList ∧ cssText (min "1px - 2em") = "min(1px - 2em)" ∧
      Balanced ("1px" ++ ", " ++ "2vw" ++ ", " ++ "3em").toList ∧
      cssText (clamp "1px" "2vw" "3em") = "clamp(1px, 2vw, 3em)" := by
  have hdifference : Balanced "1px - 2em".toList :=
    balanced_of_inert (List.all_eq_true.mp (by decide))
  have hlist : Balanced ("1px" ++ ", " ++ "2vw" ++ ", " ++ "3em").toList :=
    balanced_of_inert (List.all_eq_true.mp (by decide))
  have htrimmed : trimmed ⟨"1px - 2em"⟩ = "1px - 2em".toList := by decide
  have hinner : ∀ value ∈ [Value.math ⟨"1px - 2em"⟩, .global .inherit], value.WellNested := by
    simp only [List.forall_mem_cons]
    exact ⟨.balanced (htrimmed ▸ hdifference), .other (fun _ h => nomatch h),
      fun _ h => absurd h List.not_mem_nil⟩
  have hvalues : ∀ value ∈ [Value.ratio .widescreen, .length (.px (Binary64.infinity true)),
      .math (maxOf [Value.math ⟨"1px - 2em"⟩, .global .inherit])], value.WellNested := by
    simp only [List.forall_mem_cons]
    exact ⟨.other (fun _ h => nomatch h), .other (fun _ h => nomatch h), .maxOf hinner,
      fun _ h => absurd h List.not_mem_nil⟩
  exact ⟨hvalues, (factories_stand_alone.1 _ hvalues).1.1, hdifference,
    (factories_stand_alone.2.1 _ hdifference).1, hlist, factories_stand_alone.2.2 _ _ _ hlist⟩

end MathExpr

end CssValues
