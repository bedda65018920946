import CssValues.Proofs.MathExpr.NestedCall
import CssValues.Proofs.Text.CharClasses

/-!
# Reading a written expression again

The text of an expression depends on its trimmed text alone, and has no white space at its ends. So
when it is read as an expression again, a bare call is written as it stands, and everything else
starts with `calc(`, is no bare call, and gets one `calc()` more around it. Every text that has been
written contains a call. The two searches for calls agree here, although only one of them trims:
white space before a name never continues a name.
-/

namespace CssValues

/-- White space continues no name. -/
theorem MathExpr.isNameChar_eq_false_of_isWhiteSpace {c : Char} (h : isWhiteSpace c = true) :
    isNameChar c = false := by
  simp only [isWhiteSpace, whiteSpaceRanges, List.any_cons, List.any_nil, Bool.or_false,
    Bool.or_eq_true, decide_eq_true_eq] at h
  have hne {d : Char} (hd : c.toNat ≠ d.toNat) : (c == d) = false :=
    beq_eq_false_iff_ne.mpr fun heq => hd (congrArg Char.toNat heq)
  have halpha : c.isAlpha = false := by
    rw [← Bool.not_eq_true]
    intro hletter
    have hrange := toNat_of_isAlpha hletter
    omega
  have hdigit : c.isDigit = false := by
    rw [← Bool.not_eq_true, Char.isDigit_iff_toNat]
    change ¬ (48 ≤ c.toNat ∧ c.toNat ≤ 57)
    omega
  have hhyphen : c.toNat ≠ '-'.toNat := by
    change c.toNat ≠ 45
    omega
  have hunderscore : c.toNat ≠ '_'.toNat := by
    change c.toNat ≠ 95
    omega
  rw [isNameChar, Char.isAlphanum, halpha, hdigit, hne hhyphen, hne hunderscore]
  rfl

namespace MathExpr

/-! ## Bare calls are calls -/

/-- A bare call is a call at the place where the white space before it ends. -/
theorem isNested_of_isMathFunction {e : MathExpr} (h : e.isMathFunction = true) :
    e.isNested = true := by
  obtain ⟨name, hname, head, body, htrimmed, hcase, -⟩ := e.isMathFunction_iff.mp h
  obtain ⟨before, after, htext, hbefore, -⟩ := trimmed_eq_iff.mp htrimmed
  refine isNested_iff.mpr ⟨before, _, htext, ?_, ?_⟩
  · refine ⟨name, List.mem_cons_of_mem _ hname, head, body ++ ')' :: after, ?_, hcase⟩
    simp only [List.append_assoc, List.cons_append, List.nil_append]
  · exact fun c hc => isNameChar_eq_false_of_isWhiteSpace (hbefore c (List.mem_of_getLast? hc))

/-! ## Texts that have been written -/

/-- What decides whether an expression is a bare call is its trimmed text. -/
theorem isMathFunction_congr {e e' : MathExpr} (h : e'.trimmed = e.trimmed) :
    e'.isMathFunction = e.isMathFunction := by
  rw [isMathFunction, isMathFunction, h]

/-- What an expression is written as depends on its trimmed text alone. -/
theorem cssText_congr {e e' : MathExpr} (h : e'.trimmed = e.trimmed) : cssText e' = cssText e := by
  simp only [cssText, isMathFunction_congr h, h]

/-- A text that has been written has no white space at its ends. -/
theorem trimmed_cssText (e : MathExpr) : (⟨cssText e⟩ : MathExpr).trimmed = (cssText e).toList := by
  change trimWhiteSpace (cssText e).toList = _
  by_cases hbare : e.isMathFunction = true
  · rw [toList_cssText_of_isMathFunction hbare]
    exact trimWhiteSpace_trimWhiteSpace _
  · rw [toList_cssText_of_not_isMathFunction hbare]
    exact trimWhiteSpace_parenthesized (by simp [isWhiteSpace, whiteSpaceRanges]) _

/-- Nothing that is written inside a `calc()` is a bare call. -/
theorem not_isMathFunction_of_trimmed {e : MathExpr} {arguments : List Char}
    (h : e.trimmed = "calc".toList ++ '(' :: arguments) : ¬ e.isMathFunction = true := by
  intro hbare
  obtain ⟨name, hname, head, body, htrimmed, hcase, -⟩ := e.isMathFunction_iff.mp hbare
  rw [h] at htrimmed
  have hparen : ∀ name ∈ ["min", "max", "clamp"], '(' ∉ name.toList.map Char.toLower := by decide
  have hother : ∀ name ∈ ["min", "max", "clamp"],
      sameUpToCase "calc".toList name.toList = false := by
    decide
  have hne {text : List Char} (htext : '(' ∉ text) : ∀ c ∈ text, decide (c ≠ '(') = true :=
    fun c hc => decide_eq_true fun heq => htext (heq ▸ hc)
  obtain ⟨rfl, -⟩ := eq_and_eq_of_append_eq (hne (by decide))
    (hne (not_mem_of_sameUpToCase hcase (hparen name hname))) (by simp) (by simp) htrimmed
  rw [hother name hname] at hcase
  contradiction

/-- Reading a text again does not change whether it is a bare call. -/
theorem isMathFunction_cssText (e : MathExpr) :
    (⟨cssText e⟩ : MathExpr).isMathFunction = e.isMathFunction := by
  have htrimmed := e.trimmed_cssText
  by_cases hbare : e.isMathFunction = true
  · apply isMathFunction_congr
    rw [htrimmed, toList_cssText_of_isMathFunction hbare]
  · rw [toList_cssText_of_not_isMathFunction hbare] at htrimmed
    rw [Bool.eq_false_iff.mpr (not_isMathFunction_of_trimmed htrimmed), Bool.eq_false_iff.mpr hbare]

/-- A text that has been written contains a call: the bare one, or that of the `calc()`. -/
theorem isNested_cssText (e : MathExpr) : (⟨cssText e⟩ : MathExpr).isNested = true := by
  by_cases hbare : e.isMathFunction = true
  · exact isNested_of_isMathFunction (e.isMathFunction_cssText.trans hbare)
  · refine isNested_iff.mpr ⟨[], (cssText e).toList, (List.nil_append _).symm, ?_,
      fun c hc => by cases hc⟩
    exact ⟨"calc", List.mem_cons_self, "calc".toList, _,
      toList_cssText_of_not_isMathFunction hbare, sameUpToCase_iff.mpr rfl⟩

/-- Writing an expression, reading the text as an expression and writing that again is stable: the
text depends on the trimmed expression alone; a bare call stays one, and is written as it stands;
any other text stays inside its `calc()` as it is, and gets one more around it. What has been
written always contains a call, and so does every bare call. -/
theorem cssText_rereads (e : MathExpr) :
    let written : MathExpr := ⟨cssText e⟩
    (∀ e' : MathExpr, e'.trimmed = e.trimmed → cssText e' = cssText e) ∧
    (e.isMathFunction = true → e.isNested = true) ∧
    written.isMathFunction = e.isMathFunction ∧
    written.isNested = true ∧
    cssText written =
      if e.isMathFunction then cssText e else "calc(" ++ cssText e ++ ")" := by
  refine ⟨fun e' => cssText_congr, isNested_of_isMathFunction, e.isMathFunction_cssText,
    e.isNested_cssText, ?_⟩
  have htext : String.ofList (⟨cssText e⟩ : MathExpr).trimmed = cssText e := by
    rw [trimmed_cssText, String.ofList_toList]
  change (if (⟨cssText e⟩ : MathExpr).isMathFunction = true then
      String.ofList (⟨cssText e⟩ : MathExpr).trimmed
    else "calc(" ++ String.ofList (⟨cssText e⟩ : MathExpr).trimmed ++ ")") = _
  rw [isMathFunction_cssText, htext]

end MathExpr

end CssValues
