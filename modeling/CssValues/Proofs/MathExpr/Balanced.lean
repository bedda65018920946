import CssValues.Proofs.MathExpr.Scanner

/-!
# Balanced texts

A text is balanced when its parentheses are matched outside escapes, comments and strings, and no
escape, comment or string is left open. The scanner inside a parenthesis finds its end exactly where
a balanced text is followed by a closing parenthesis. One direction follows the derivation that the
text is balanced, for any number of parentheses around it; the other takes the text apart where the
scanner does, and is an induction on its length because a parenthesis splits it in two.
-/

namespace CssValues

namespace MathExpr

/-- The inside of a string. The quote that opened it stands only behind a backslash, and a backslash
always has a character behind it. -/
inductive IsStringBody (quote : Char) : List Char → Prop where
  | nil : IsStringBody quote []
  | escape (c : Char) {rest : List Char} :
    IsStringBody quote rest → IsStringBody quote ('\\' :: c :: rest)
  | char {c : Char} {rest : List Char} :
    c ≠ quote → c ≠ '\\' → IsStringBody quote rest → IsStringBody quote (c :: rest)

/-- The inside of a comment: no `*/` ends before the one that follows it. -/
def IsCommentBody (body : List Char) : Prop := ¬ ['*', '/'] <:+: body ++ ['*']

/-- A sequence of escapes, comments, strings, balanced texts in parentheses, and other
characters. -/
inductive Balanced : List Char → Prop where
  | nil : Balanced []
  | escape (c : Char) {rest : List Char} : Balanced rest → Balanced ('\\' :: c :: rest)
  | comment {body rest : List Char} :
    IsCommentBody body → Balanced rest → Balanced ('/' :: '*' :: (body ++ '*' :: '/' :: rest))
  | string {quote : Char} {body rest : List Char} :
    IsQuote quote → IsStringBody quote body → Balanced rest →
      Balanced (quote :: (body ++ quote :: rest))
  | group {inner rest : List Char} :
    Balanced inner → Balanced rest → Balanced ('(' :: (inner ++ ')' :: rest))
  | plain {c : Char} {rest : List Char} :
    IsPlain c → (c = '/' → rest.head? ≠ some '*') → Balanced rest → Balanced (c :: rest)

/-! ## Comments -/

/-- A comment may have nothing in it. -/
theorem isCommentBody_nil : IsCommentBody [] := by
  unfold IsCommentBody
  decide

/-- A comment starts with a character that does not end it, and goes on as a comment. -/
theorem isCommentBody_cons {c : Char} {body : List Char} (rest : List Char) :
    IsCommentBody (c :: body) ↔
      ¬ (c = '*' ∧ (body ++ '*' :: rest).head? = some '/') ∧ IsCommentBody body := by
  have hhead : (body ++ '*' :: rest).head? = (body ++ ['*']).head? := by cases body <;> rfl
  have hprefix : ['*', '/'] <+: c :: (body ++ ['*']) ↔
      c = '*' ∧ (body ++ ['*']).head? = some '/' := by
    rw [List.cons_prefix_cons, eq_comm (a := c)]
    cases body ++ ['*'] <;> simp [eq_comm]
  rw [IsCommentBody, List.cons_append, List.infix_cons_iff, not_or, hprefix, hhead]
  rfl

/-- A comment is passed over with the `*/` that ends it. -/
theorem afterComment_append {body : List Char} (hbody : IsCommentBody body) (rest : List Char) :
    afterComment (utf8Bytes (body ++ '*' :: '/' :: rest)) = utf8Bytes rest := by
  induction body with
  | nil => exact afterComment_close rest
  | cons c body ih =>
    rw [isCommentBody_cons ('/' :: rest)] at hbody
    rw [List.cons_append, afterComment_cons hbody.1, ih hbody.2]

/-- Either no `*/` follows, or there is a comment up to the first one. -/
theorem exists_comment (text : List Char) :
    afterComment (utf8Bytes text) = [] ∨
      ∃ body rest, IsCommentBody body ∧ text = body ++ '*' :: '/' :: rest := by
  induction text with
  | nil => exact Or.inl rfl
  | cons c text ih =>
    by_cases hclose : c = '*' ∧ text.head? = some '/'
    · obtain ⟨rfl, hhead⟩ := hclose
      obtain ⟨rest, rfl⟩ := List.head?_eq_some_iff.mp hhead
      exact Or.inr ⟨[], rest, isCommentBody_nil, rfl⟩
    · rw [afterComment_cons hclose]
      refine ih.imp_right fun hcomment => ?_
      obtain ⟨body, rest, hbody, rfl⟩ := hcomment
      exact ⟨c :: body, rest, (isCommentBody_cons _).mpr ⟨hclose, hbody⟩, rfl⟩

/-! ## Strings -/

namespace Scanner

/-- A string is passed over with the quote that ends it. -/
theorem run_string (depth : Nat) {quote : Char} (hquote : IsQuote quote) {body : List Char}
    (hbody : IsStringBody quote body) (rest : List Char) :
    (before depth (some quote) (body ++ quote :: rest)).run = (before depth none rest).run := by
  induction hbody with
  | nil => exact run_quote_close depth hquote rest
  | escape c _ ih =>
    rw [List.cons_append, List.cons_append,
      run_escape depth (fun d hd => Option.some.inj hd ▸ hquote), ih]
  | char hne hescape _ ih => rw [List.cons_append, run_quoted depth hquote hne hescape, ih]

/-- A run that leaves a string has passed its end. -/
theorem exists_string_of_run {depth : Nat} {quote : Char} (hquote : IsQuote quote)
    {text : List Char} {bytes : List UInt8}
    (h : (before depth (some quote) text).run = some bytes) :
    ∃ body rest, IsStringBody quote body ∧ text = body ++ quote :: rest ∧
      (before depth none rest).run = some bytes := by
  induction hn : text.length using Nat.strongRecOn generalizing text with
  | ind n ih =>
    subst hn
    cases text with
    | nil => simp at h
    | cons c text =>
      by_cases hclose : c = quote
      · subst c
        rw [run_quote_close depth hquote] at h
        exact ⟨[], text, .nil, rfl, h⟩
      · by_cases hescape : c = '\\'
        · subst c
          cases text with
          | nil => simp [run_escape_end] at h
          | cons d text =>
            rw [run_escape depth (fun e he => Option.some.inj he ▸ hquote)] at h
            obtain ⟨body, rest, hbody, rfl, hrest⟩ :=
              ih text.length (by simp only [List.length_cons]; omega) h rfl
            exact ⟨'\\' :: d :: body, rest, .escape d hbody, rfl, hrest⟩
        · rw [run_quoted depth hquote hclose hescape] at h
          obtain ⟨body, rest, hbody, rfl, hrest⟩ := ih _ (Nat.lt_succ_self _) h rfl
          exact ⟨c :: body, rest, .char hclose hescape hbody, rfl, hrest⟩

/-! ## The two directions -/

/-- A balanced text inside a parenthesis is passed over. No star may follow, as a slash at the end
of the text would start a comment with it. -/
theorem run_balanced {text : List Char} (h : Balanced text) (depth : Nat) {rest : List Char}
    (hrest : rest.head? ≠ some '*') :
    (before (depth + 1) none (text ++ rest)).run = (before (depth + 1) none rest).run := by
  induction h generalizing depth rest with
  | nil => rfl
  | escape c _ ih =>
    rw [List.cons_append, List.cons_append, run_escape (depth + 1) (fun _ hd => by cases hd),
      ih depth hrest]
  | comment hbody _ ih =>
    simp only [List.cons_append, List.append_assoc]
    rw [run_comment, afterComment_append hbody]
    exact ih depth hrest
  | string hquote hbody _ ih =>
    simp only [List.cons_append, List.append_assoc]
    rw [run_quote_open (depth + 1) hquote, run_string (depth + 1) hquote hbody, ih depth hrest]
  | group _ _ ihinner ih =>
    simp only [List.cons_append, List.append_assoc]
    rw [run_open, ihinner (depth + 1) (by simp), run_close, ih depth hrest]
  | @plain c text hplain hcomment _ ih =>
    rw [List.cons_append, run_plain (depth + 1) hplain, ih depth hrest]
    cases text with
    | nil => exact fun _ => hrest
    | cons d text => exact hcomment

/-- A run that leaves a parenthesis has passed a balanced text and the end of the parenthesis. -/
theorem exists_balanced_of_run {depth : Nat} {text : List Char} {bytes : List UInt8}
    (h : (before (depth + 1) none text).run = some bytes) :
    ∃ body rest, Balanced body ∧ text = body ++ ')' :: rest ∧
      (before (depth + 1) none (')' :: rest)).run = some bytes := by
  induction hn : text.length using Nat.strongRecOn generalizing text depth with
  | ind n ih =>
    subst hn
    cases text with
    | nil => simp at h
    | cons c text =>
      by_cases hescape : c = '\\'
      · subst c
        cases text with
        | nil => simp [run_escape_end] at h
        | cons d text =>
          rw [run_escape (depth + 1) (fun _ hd => by cases hd)] at h
          obtain ⟨body, rest, hbody, rfl, hrest⟩ :=
            ih text.length (by simp only [List.length_cons]; omega) h rfl
          exact ⟨_, rest, .escape d hbody, rfl, hrest⟩
      by_cases hquote : IsQuote c
      · rw [run_quote_open (depth + 1) hquote] at h
        obtain ⟨string, text, hstring, rfl, hafter⟩ := exists_string_of_run hquote h
        obtain ⟨body, rest, hbody, rfl, hrest⟩ :=
          ih text.length (by simp only [List.length_cons, List.length_append]; omega) hafter rfl
        exact ⟨_, rest, .string hquote hstring hbody, by simp, hrest⟩
      by_cases hopen : c = '('
      · subst c
        rw [run_open] at h
        obtain ⟨inner, text, hinner, rfl, hafter⟩ := ih _ (Nat.lt_succ_self _) h rfl
        rw [run_close] at hafter
        obtain ⟨body, rest, hbody, rfl, hrest⟩ :=
          ih text.length (by simp only [List.length_cons, List.length_append]; omega) hafter rfl
        exact ⟨_, rest, .group hinner hbody, by simp, hrest⟩
      by_cases hclose : c = ')'
      · subst c
        exact ⟨[], text, .nil, rfl, h⟩
      by_cases hcomment : c = '/' ∧ text.head? = some '*'
      · obtain ⟨rfl, hhead⟩ := hcomment
        obtain ⟨text, rfl⟩ := List.head?_eq_some_iff.mp hhead
        rw [run_comment] at h
        obtain hend | ⟨comment, text, hbody', rfl⟩ := exists_comment text
        · simp [hend] at h
        · rw [afterComment_append hbody'] at h
          obtain ⟨body, rest, hbody, rfl, hrest⟩ :=
            ih text.length (by simp only [List.length_cons, List.length_append]; omega) h rfl
          exact ⟨_, rest, .comment hbody' hbody, by simp, hrest⟩
      · have hplain : IsPlain c := ⟨hescape, hquote, hopen, hclose⟩
        have hslash : c = '/' → text.head? ≠ some '*' := not_and.mp hcomment
        rw [run_plain (depth + 1) hplain hslash] at h
        obtain ⟨body, rest, hbody, rfl, hrest⟩ := ih _ (Nat.lt_succ_self _) h rfl
        refine ⟨c :: body, rest, .plain hplain ?_ hbody, rfl, hrest⟩
        intro hc
        cases body with
        | nil => simp
        | cons d body => exact hslash hc

end Scanner

/-- The parenthesis at the start of a text is closed by the last character exactly when the text
between them is balanced. -/
theorem afterClosing?_eq_some_nil_iff (text : List Char) :
    afterClosing? ('(' :: text) = some [] ↔ ∃ body, Balanced body ∧ text = body ++ [')'] := by
  have hopen : afterClosing? ('(' :: text) = (Scanner.before 1 none text).run :=
    Scanner.run_open 0 text
  rw [hopen]
  constructor
  · intro h
    obtain ⟨body, rest, hbody, rfl, hrest⟩ := Scanner.exists_balanced_of_run h
    rw [Scanner.run_close_last, Option.some.injEq, utf8Bytes_eq_nil_iff] at hrest
    exact ⟨body, hbody, by rw [hrest]⟩
  · intro h
    obtain ⟨body, hbody, rfl⟩ := h
    rw [Scanner.run_balanced hbody 0 (by simp), Scanner.run_close_last]
    rfl

/-- A text with a closing parenthesis added closes the one before it exactly when it is balanced. -/
theorem afterClosing?_append_close_iff (text : List Char) :
    afterClosing? ('(' :: (text ++ [')'])) = some [] ↔ Balanced text := by
  rw [afterClosing?_eq_some_nil_iff]
  constructor
  · intro h
    obtain ⟨body, hbody, heq⟩ := h
    exact List.append_cancel_right heq ▸ hbody
  · intro h
    exact ⟨text, h, rfl⟩

/-! ## Building balanced texts -/

namespace Balanced

/-- Balanced texts may follow each other, unless a star might end up behind a slash. -/
theorem append {text other : List Char} (h : Balanced text) (hother : Balanced other)
    (hhead : other.head? ≠ some '*') : Balanced (text ++ other) := by
  induction h with
  | nil => exact hother
  | escape c _ ih => exact .escape c ih
  | comment hbody _ ih =>
    simp only [List.cons_append, List.append_assoc]
    exact .comment hbody ih
  | string hquote hbody _ ih =>
    simp only [List.cons_append, List.append_assoc]
    exact .string hquote hbody ih
  | group hinner _ _ ih =>
    simp only [List.cons_append, List.append_assoc]
    exact .group hinner ih
  | @plain c text hplain hcomment _ ih =>
    refine .plain hplain ?_ ih
    cases text with
    | nil => exact fun _ => hhead
    | cons d text => exact hcomment

/-- A text of plain characters is balanced if no star is among them. -/
theorem of_forall_plain {text : List Char} (h : ∀ c ∈ text, IsPlain c ∧ c ≠ '*') :
    Balanced text := by
  induction text with
  | nil => exact .nil
  | cons c text ih =>
    rw [List.forall_mem_cons] at h
    refine .plain h.1.1 ?_ (ih h.2)
    intro _ hhead
    obtain ⟨rest, rfl⟩ := List.head?_eq_some_iff.mp hhead
    exact (h.2 '*' List.mem_cons_self).2 rfl

/-- A balanced text in parentheses is balanced. -/
theorem parenthesized {text : List Char} (h : Balanced text) :
    Balanced ('(' :: (text ++ [')'])) :=
  .group h .nil

end Balanced

end MathExpr

end CssValues
