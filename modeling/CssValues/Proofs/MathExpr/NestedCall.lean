import CssValues.Proofs.MathExpr.Call

/-!
# Calls inside an expression

An expression counts as nested when the name of a math function, directly followed by a parenthesis,
stands at any place of it that does not continue a name of ASCII characters. The search for such
places knows neither strings nor comments nor escapes, and it takes every character beyond ASCII for
the end of a name. So it finds all calls that the expression makes of its own, and in expressions
without these characters it finds nothing else.
-/

namespace CssValues

namespace MathExpr

/-! ## Places of calls -/

/-- The text between two others starts with a call of a math function, and no name of ASCII
characters continues into it. -/
structure IsMathCall (front back : List Char) : Prop where
  exists_call : ∃ name ∈ ["calc", "min", "max", "clamp"], ∃ head rest,
    back = head ++ '(' :: rest ∧ sameUpToCase head name.toList = true
  ends_name : ∀ c ∈ front.getLast?, isNameChar c = false

/-- A text starts with a call when it starts with the name, up to case, and a parenthesis. -/
theorem startsWithCall_iff {name : String} {text : List Char} :
    startsWithCall name text = true ↔
      ∃ head rest, text = head ++ '(' :: rest ∧ sameUpToCase head name.toList = true := by
  rw [startsWithCall, Option.isSome_iff_exists, exists_comm]
  exact exists_congr fun rest => afterCall?_eq_some_iff

/-- At the place of a call one of the four functions is found. -/
theorem IsMathCall.any_startsWithCall {front back : List Char} (h : IsMathCall front back) :
    mathFunctions.any (startsWithCall · back) = true := by
  obtain ⟨name, hname, hcall⟩ := h.exists_call
  exact List.any_eq_true.mpr ⟨name, hname, startsWithCall_iff.mpr hcall⟩

/-- Where a function is found at one place of a text only, all calls are at that place. -/
theorem IsMathCall.eq_take_drop {text front back : List Char} (place : Nat)
    (htext : text = front ++ back) (hcall : IsMathCall front back)
    (honly : ∀ k ≤ text.length,
      mathFunctions.any (startsWithCall · (text.drop k)) = true → k = place) :
    front = text.take place ∧ back = text.drop place := by
  have hlength : front.length ≤ text.length := by
    rw [htext, List.length_append]
    exact Nat.le_add_right _ _
  have hplace : front.length = place := by
    apply honly _ hlength
    rw [htext, List.drop_left]
    exact hcall.any_startsWithCall
  rw [← hplace, htext, List.take_left, List.drop_left]
  exact ⟨rfl, rfl⟩

/-- The search goes over all places of the text, and knows of each character whether it continues a
name. -/
theorem hasCall_iff {names : List String} {inName : Bool} {text : List Char} :
    hasCall names inName text = true ↔
      ∃ front back, text = front ++ back ∧ (∃ name ∈ names, startsWithCall name back = true) ∧
        (front.getLast?.map isNameChar).getD inName = false := by
  induction text generalizing inName with
  | nil =>
    refine iff_of_false (by simp [hasCall]) fun h => ?_
    obtain ⟨front, back, htext, ⟨name, -, hcall⟩, -⟩ := h
    obtain ⟨head, rest, hback, -⟩ := startsWithCall_iff.mp hcall
    simp [hback] at htext
  | cons c text ih =>
    have hlast (front : List Char) : ((c :: front).getLast?.map isNameChar).getD inName =
        (front.getLast?.map isNameChar).getD (isNameChar c) := by
      rw [List.getLast?_cons]
      cases front.getLast? <;> rfl
    rw [hasCall, Bool.or_eq_true, Bool.and_eq_true, Bool.not_eq_true', List.any_eq_true, ih]
    constructor
    · intro h
      rcases h with ⟨hname, hcall⟩ | ⟨front, back, rfl, hcall, hname⟩
      · exact ⟨[], c :: text, rfl, hcall, hname⟩
      · exact ⟨c :: front, back, rfl, hcall, (hlast front).trans hname⟩
    · intro h
      obtain ⟨front, back, htext, hcall, hname⟩ := h
      cases front with
      | nil =>
        rw [List.nil_append] at htext
        exact Or.inl ⟨hname, htext ▸ hcall⟩
      | cons d front =>
        obtain ⟨rfl, rfl⟩ := List.cons_eq_cons.mp htext
        exact Or.inr ⟨front, back, rfl, hcall, (hlast front).symm.trans hname⟩

/-- An expression is nested exactly when a call of a math function starts at one of its places. -/
theorem isNested_iff {e : MathExpr} :
    e.isNested = true ↔
      ∃ front back, e.expression.toList = front ++ back ∧ IsMathCall front back := by
  rw [isNested, hasCall_iff]
  refine exists_congr fun front => exists_congr fun back => and_congr_right fun _ => ?_
  have hcall : (∃ name ∈ mathFunctions, startsWithCall name back = true) ↔
      ∃ name ∈ ["calc", "min", "max", "clamp"], ∃ head rest,
        back = head ++ '(' :: rest ∧ sameUpToCase head name.toList = true :=
    exists_congr fun name => and_congr_right fun _ => startsWithCall_iff
  have hname : (front.getLast?.map isNameChar).getD false = false ↔
      ∀ c ∈ front.getLast?, isNameChar c = false := by
    cases front.getLast? <;> simp
  rw [hcall, hname]
  exact ⟨fun h => ⟨h.1, h.2⟩, fun h => ⟨h.1, h.2⟩⟩

/-! ## Places outside strings and comments -/

/-- The place between two texts is outside strings and comments, and no backslash takes the
character behind it: a scanner that starts before both, inside enough parentheses, comes to the
place without a quote. -/
def IsOutside (front back : List Char) : Prop :=
  ∃ depth depth', (Scanner.before depth none (front ++ back)).Reaches (.before depth' none back)

/-- Characters other than backslashes and quotes are passed over, parentheses included, if there is
a parenthesis for each of them that the scanner may leave. -/
theorem Scanner.exists_reaches {front back : List Char}
    (hfront : ∀ c ∈ front, c ≠ '\\' ∧ ¬ IsQuote c) (hcomment : ¬ ['/', '*'] <:+: front ++ back)
    {depth : Nat} (hdepth : front.length < depth) :
    ∃ depth', (before depth none (front ++ back)).Reaches (before depth' none back) := by
  induction front generalizing depth with
  | nil => exact ⟨depth, .refl⟩
  | cons c front ih =>
    rw [List.forall_mem_cons] at hfront
    obtain ⟨⟨hescape, hquote⟩, hfront⟩ := hfront
    rw [List.cons_append, List.infix_cons_iff, not_or] at hcomment
    rw [List.length_cons] at hdepth
    obtain ⟨depth, rfl⟩ := Nat.exists_eq_add_of_le' (show 2 ≤ depth by omega)
    by_cases hopen : c = '('
    · subst hopen
      obtain ⟨depth', hreaches⟩ := ih hfront hcomment.2 (show front.length < depth + 2 + 1 by omega)
      exact ⟨depth', .head (step_open _ _) hreaches⟩
    by_cases hclose : c = ')'
    · subst hclose
      obtain ⟨depth', hreaches⟩ := ih hfront hcomment.2 (show front.length < depth + 1 by omega)
      exact ⟨depth', .head (step_close _ _) hreaches⟩
    · obtain ⟨depth', hreaches⟩ := ih hfront hcomment.2 (show front.length < depth + 2 by omega)
      have hslash : c = '/' → (front ++ back).head? ≠ some '*' := by
        rintro rfl hhead
        obtain ⟨text, htext⟩ := List.head?_eq_some_iff.mp hhead
        exact hcomment.1 (htext ▸ List.prefix_append ['/', '*'] text)
      exact ⟨depth', (reaches_plain _ ⟨hescape, hquote, hopen, hclose⟩ hslash).trans hreaches⟩

/-- In a text without backslashes, quotes and comments every place is outside. -/
theorem isOutside_of_forall {front back : List Char}
    (hfront : ∀ c ∈ front, c ≠ '\\' ∧ ¬ IsQuote c) (hcomment : ¬ ['/', '*'] <:+: front ++ back) :
    IsOutside front back :=
  ⟨front.length + 1, Scanner.exists_reaches hfront hcomment (Nat.lt_succ_self _)⟩

namespace Scanner

/-- No step turns back. -/
theorem length_rest_le_of_reaches {s t : Scanner} (h : s.Reaches t) :
    t.rest.length ≤ s.rest.length := by
  induction h with
  | refl => exact Nat.le_refl _
  | tail _ hstep ih => exact Nat.le_trans (Nat.le_of_lt (length_rest_lt hstep)) ih

/-- What the next step jumps over is never reached. -/
theorem not_reaches_of_step {s t u : Scanner} (hstep : s.step = .next u)
    (hbehind : t.rest.length < s.rest.length) (hahead : u.rest.length < t.rest.length) :
    ¬ s.Reaches t := by
  intro h
  rcases h.cases_head with rfl | ⟨v, hv, hreaches⟩
  · exact Nat.lt_irrefl _ hbehind
  · rw [hstep] at hv
    cases hv
    exact Nat.not_lt.mpr (length_rest_le_of_reaches hreaches) hahead

end Scanner

/-- A place that the comment at the start of a text jumps over is not outside. -/
theorem not_isOutside_of_comment {front back : List Char} (text : List Char)
    (htext : front ++ back = '/' :: '*' :: text)
    (hbehind : (utf8Bytes back).length < (utf8Bytes (front ++ back)).length)
    (hahead : (afterComment (utf8Bytes text)).length < (utf8Bytes back).length) :
    ¬ IsOutside front back := by
  rintro ⟨depth, depth', hreaches⟩
  rw [htext] at hbehind hreaches
  exact Scanner.not_reaches_of_step (Scanner.step_comment depth text) hbehind hahead hreaches

/-! ## Calls of the expression's own -/

section Own

variable (wide : Char → Prop)

/-- The place is that of a call, is outside strings and comments, and the character before it does
not continue an identifier: neither an ASCII character nor one of the wide ones. -/
structure IsOwnCall (front back : List Char) : Prop extends IsMathCall front back where
  isOutside : IsOutside front back
  ends_identifier : ∀ c ∈ front.getLast?, ¬ wide c

/-- The expression makes a call of a math function of its own. -/
def HasOwnCall (e : MathExpr) : Prop :=
  ∃ front back, e.expression.toList = front ++ back ∧ IsOwnCall wide front back

/-- Nothing in the text hides a call: no backslash, quote or wide character, and no comment. -/
structure HidesNothing (text : List Char) : Prop where
  chars : ∀ c ∈ text, c ≠ '\\' ∧ ¬ IsQuote c ∧ ¬ wide c
  no_comment : ¬ ['/', '*'] <:+: text

/-- An expression with a call of its own is nested, and one whose text hides nothing is nested for
no other reason. -/
theorem isNested_finds_own_calls (e : MathExpr) :
    (e.HasOwnCall wide → e.isNested = true) ∧
      (HidesNothing wide e.expression.toList → e.isNested = true → e.HasOwnCall wide) := by
  rw [isNested_iff]
  constructor
  · rintro ⟨front, back, htext, hcall⟩
    exact ⟨front, back, htext, hcall.toIsMathCall⟩
  · rintro hhides ⟨front, back, htext, hcall⟩
    rw [htext] at hhides
    have hfront (c : Char) (hc : c ∈ front) := hhides.chars c (List.mem_append_left back hc)
    refine ⟨front, back, htext, hcall, ?_, fun c hc => ?_⟩
    · exact isOutside_of_forall (fun c hc => ⟨(hfront c hc).1, (hfront c hc).2.1⟩)
        hhides.no_comment
    · exact (hfront c (List.mem_of_getLast? hc)).2.2

end Own

/-- The least of two lengths in a sum is a call of the expression's own. -/
theorem sum_with_min_has_own_call :
    let e : MathExpr := ⟨"1px + MIN(2px, 3px)"⟩
    HidesNothing (fun c => 128 ≤ c.toNat) e.expression.toList ∧ e.isNested = true ∧
      e.HasOwnCall fun c => 128 ≤ c.toNat := by
  intro e
  have hchars :
      e.expression.toList.all (fun c => c ≠ '\\' ∧ ¬ IsQuote c ∧ ¬ 128 ≤ c.toNat) = true := by
    decide
  have hslash : '/' ∉ e.expression.toList := by decide
  have hhides : HidesNothing (fun c => 128 ≤ c.toNat) e.expression.toList :=
    ⟨fun c hc => of_decide_eq_true (List.all_eq_true.mp hchars c hc),
      fun hcomment => hslash (hcomment.subset List.mem_cons_self)⟩
  have hnested : e.isNested = true := by decide
  exact ⟨hhides, hnested, (isNested_finds_own_calls _ e).2 hhides hnested⟩

/-- A call in a comment and one at the end of a name beyond ASCII make an expression nested, and are
not calls of its own. -/
theorem isNested_without_own_call :
    let commented : MathExpr := ⟨"/* min(2px) */ 1px"⟩
    let named : MathExpr := ⟨"émin(2px)"⟩
    (commented.isNested = true ∧ ¬ commented.HasOwnCall fun c => 128 ≤ c.toNat) ∧
      named.isNested = true ∧ ¬ named.HasOwnCall fun c => 128 ≤ c.toNat := by
  intro commented named
  refine ⟨⟨by decide, ?_⟩, by decide, ?_⟩
  · rintro ⟨front, back, htext, hcall⟩
    obtain ⟨rfl, rfl⟩ := hcall.eq_take_drop 3 htext (by decide)
    exact not_isOutside_of_comment " min(2px) */ 1px".toList (by decide) (by decide) (by decide)
      hcall.isOutside
  · rintro ⟨front, back, htext, hcall⟩
    obtain ⟨rfl, rfl⟩ := hcall.eq_take_drop 1 htext (by decide)
    exact hcall.ends_identifier 'é' (by decide) (by decide)

end MathExpr

end CssValues
