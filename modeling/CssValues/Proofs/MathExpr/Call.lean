import CssValues.MathExpr.Basic
import CssValues.Proofs.MathExpr.Balanced
import CssValues.Proofs.Text.Split

/-!
# Calls that stand by themselves

An expression stands by itself exactly when it is the name of one of the three functions and a
balanced text in parentheses. Every other expression goes into a `calc()`, and the parenthesis of
the `calc()` is closed by its last character exactly when the expression is balanced.
-/

namespace CssValues

/-- Texts that agree up to case have the same number of characters. -/
theorem length_eq_of_sameUpToCase {text other : List Char} (h : sameUpToCase text other = true) :
    text.length = other.length := by
  have hlower := congrArg List.length (sameUpToCase_iff.mp h)
  simpa only [List.length_map] using hlower

namespace MathExpr

/-- The trimmed text of an expression is what is left when nothing but white space is cut off before
and after it, as much of it as there is. -/
theorem trimmed_eq_iff {e : MathExpr} {text : List Char} :
    e.trimmed = text ↔
      ∃ before after, e.expression.toList = before ++ (text ++ after) ∧
        (∀ c ∈ before, isWhiteSpace c = true) ∧ (∀ c ∈ after, isWhiteSpace c = true) ∧
        (∀ c ∈ text.head?, isWhiteSpace c = false) ∧
        ∀ c ∈ text.getLast?, isWhiteSpace c = false :=
  trimWhiteSpace_eq_iff

/-- The name before the first parenthesis of a call, and what follows the parenthesis. -/
theorem afterCall?_eq_some_iff {name : String} {text rest : List Char} :
    afterCall? name text = some rest ↔
      ∃ head, text = head ++ '(' :: rest ∧ sameUpToCase head name.toList = true := by
  constructor
  · intro h
    unfold afterCall? at h
    split at h
    next hname =>
      split at h
      next _ hdrop =>
        refine ⟨text.take name.length, ?_, hname⟩
        rw [← Option.some.inj h, ← hdrop, List.take_append_drop]
      · contradiction
    · contradiction
  · intro h
    obtain ⟨head, rfl, hname⟩ := h
    have hlength : name.length = head.length := by
      rw [← String.length_toList, length_eq_of_sameUpToCase hname]
    simp only [afterCall?, hlength, List.take_left, List.drop_left, hname, if_true]

/-- A text is one call of a function exactly when it is the name, up to case, and a balanced text in
parentheses. -/
theorem isCallOf_iff {name : String} {text : List Char} :
    isCallOf name text = true ↔
      ∃ head body, text = head ++ '(' :: (body ++ [')']) ∧ sameUpToCase head name.toList = true ∧
        Balanced body := by
  unfold isCallOf
  constructor
  · intro h
    split at h
    next rest hcall =>
      obtain ⟨head, rfl, hname⟩ := afterCall?_eq_some_iff.mp hcall
      rw [beq_iff_eq, afterClosing?_eq_some_nil_iff] at h
      obtain ⟨body, hbody, rfl⟩ := h
      exact ⟨head, body, rfl, hname, hbody⟩
    · contradiction
  · intro h
    obtain ⟨head, body, rfl, hname, hbody⟩ := h
    rw [afterCall?_eq_some_iff.mpr ⟨head, rfl, hname⟩]
    exact beq_iff_eq.mpr ((afterClosing?_append_close_iff body).mpr hbody)

/-- An expression is a bare call exactly when its trimmed text is one call of the functions. -/
theorem isMathFunction_iff_exists_isCallOf {e : MathExpr} :
    e.isMathFunction = true ↔ ∃ name ∈ ["min", "max", "clamp"], isCallOf name e.trimmed = true :=
  List.any_eq_true

/-- An expression is a bare call exactly when its trimmed text is `min`, `max` or `clamp`, up to
case, and a balanced text in parentheses. -/
theorem isMathFunction_iff (e : MathExpr) :
    e.isMathFunction = true ↔
      ∃ name ∈ ["min", "max", "clamp"], ∃ head body, e.trimmed = head ++ '(' :: (body ++ [')']) ∧
        sameUpToCase head name.toList = true ∧ Balanced body := by
  rw [isMathFunction_iff_exists_isCallOf]
  exact exists_congr fun name => and_congr_right fun _ => isCallOf_iff

/-! ## The wrapper -/

/-- A bare call is written as it is, without the white space at its ends. -/
theorem toList_cssText_of_isMathFunction {e : MathExpr} (h : e.isMathFunction = true) :
    (cssText e).toList = e.trimmed := by
  simp only [cssText, h, if_true, String.toList_ofList]

/-- Every other expression is written inside a `calc()`. -/
theorem toList_cssText_of_not_isMathFunction {e : MathExpr} (h : ¬ e.isMathFunction = true) :
    (cssText e).toList = "calc".toList ++ '(' :: (e.trimmed ++ [')']) := by
  simp [cssText, h]

/-- The name of a math function has no parenthesis in it, whatever the case of its letters. -/
theorem not_mem_of_sameUpToCase {head name : List Char} (h : sameUpToCase head name = true)
    (hname : '(' ∉ name.map Char.toLower) : '(' ∉ head := by
  intro hmem
  apply hname
  rw [← sameUpToCase_iff.mp h]
  exact List.mem_map_of_mem hmem

/-- The text of an expression is `calc`, or the name of the bare call, and parentheses. The first
parenthesis is closed by the last character exactly when the expression is a bare call or
balanced: only then does nothing of the expression end up outside the parentheses. -/
theorem cssText_closes_at_end_iff (e : MathExpr) :
    ∃ head args, (cssText e).toList = head ++ '(' :: args ∧ '(' ∉ head ∧
      (if e.isMathFunction then
        ∃ name ∈ ["min", "max", "clamp"], sameUpToCase head name.toList = true
      else head = "calc".toList) ∧
      (afterClosing? ('(' :: args) = some [] ↔ e.isMathFunction = true ∨ Balanced e.trimmed) := by
  by_cases hbare : e.isMathFunction = true
  · obtain ⟨name, hmem, hcall⟩ := isMathFunction_iff_exists_isCallOf.mp hbare
    obtain ⟨head, body, htrimmed, hname, hbody⟩ := isCallOf_iff.mp hcall
    have hparen : ∀ name ∈ ["min", "max", "clamp"], '(' ∉ name.toList.map Char.toLower := by decide
    refine ⟨head, body ++ [')'], ?_, not_mem_of_sameUpToCase hname (hparen name hmem), ?_, ?_⟩
    · rw [toList_cssText_of_isMathFunction hbare, htrimmed]
    · rw [if_pos hbare]
      exact ⟨name, hmem, hname⟩
    · rw [afterClosing?_append_close_iff]
      exact iff_of_true hbody (Or.inl hbare)
  · refine ⟨"calc".toList, e.trimmed ++ [')'], toList_cssText_of_not_isMathFunction hbare,
      by decide, ?_, ?_⟩
    · rw [if_neg hbare]
    · rw [afterClosing?_append_close_iff]
      exact (or_iff_right hbare).symm

/-! ## Calls of the three functions -/

/-- A call is the name and the arguments in parentheses. -/
theorem toList_expression_call (name arguments : String) :
    (call name arguments).expression.toList =
      name.toList ++ '(' :: (arguments.toList ++ [')']) := by
  simp [call]

/-- A name before parentheses has no white space at its ends if it does not start with any. -/
theorem trimWhiteSpace_parenthesized {head : List Char}
    (hhead : ∀ c ∈ head.head?, isWhiteSpace c = false) (arguments : List Char) :
    trimWhiteSpace (head ++ '(' :: (arguments ++ [')'])) = head ++ '(' :: (arguments ++ [')']) := by
  apply trimWhiteSpace_eq_self
  · cases head with
    | nil => simp [isWhiteSpace, whiteSpaceRanges]
    | cons first head => exact hhead
  · simp [List.getLast?_cons, List.getLast?_append, isWhiteSpace, whiteSpaceRanges]

/-- A call of one of the three functions has no white space at its ends. -/
theorem trimmed_call {name : String} (hname : name ∈ ["min", "max", "clamp"])
    (arguments : String) :
    (call name arguments).trimmed = (call name arguments).expression.toList := by
  have hfirst : ∀ name ∈ ["min", "max", "clamp"], ∀ c ∈ name.toList.head?,
      isWhiteSpace c = false := by
    simp [isWhiteSpace, whiteSpaceRanges]
  rw [trimmed, toList_expression_call, trimWhiteSpace_parenthesized (hfirst name hname)]

/-- A call of one of the three functions with balanced arguments stands by itself. -/
theorem isMathFunction_call {name : String} (hname : name ∈ ["min", "max", "clamp"])
    {arguments : String} (harguments : Balanced arguments.toList) :
    (call name arguments).isMathFunction = true := by
  refine isMathFunction_iff_exists_isCallOf.mpr ⟨name, hname, ?_⟩
  rw [trimmed_call hname, toList_expression_call, isCallOf_iff]
  exact ⟨name.toList, arguments.toList, rfl, sameUpToCase_iff.mpr rfl, harguments⟩

/-- A call of one of the three functions with balanced arguments is written as it is. -/
theorem cssText_call {name : String} (hname : name ∈ ["min", "max", "clamp"])
    {arguments : String} (harguments : Balanced arguments.toList) :
    cssText (call name arguments) = (call name arguments).expression := by
  apply String.toList_injective
  rw [toList_cssText_of_isMathFunction (isMathFunction_call hname harguments), trimmed_call hname]

end MathExpr

end CssValues
