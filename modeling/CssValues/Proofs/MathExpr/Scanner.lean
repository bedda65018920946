import CssValues.Proofs.Text.Utf8
import Mathlib.Logic.Relation

/-!
# The scanner, character by character

The scanner goes by bytes. Seen from the places between two characters it goes by characters: each
theorem of this module says what a run does at one kind of character. The bytes of characters beyond
ASCII change nothing, so an escape that takes only the first of them is an escape of the character.
-/

namespace CssValues

namespace MathExpr

/-- The character opens and closes strings. -/
def IsQuote (c : Char) : Prop := c = '\x22' ∨ c = '\x27'

/-- The character alone means nothing to the scanner outside strings. A slash is such a character,
but starts a comment together with a star. -/
def IsPlain (c : Char) : Prop := c ≠ '\\' ∧ ¬ IsQuote c ∧ c ≠ '(' ∧ c ≠ ')'

instance (c : Char) : Decidable (IsQuote c) := inferInstanceAs (Decidable (_ ∨ _))
instance (c : Char) : Decidable (IsPlain c) := inferInstanceAs (Decidable (_ ∧ _))

/-- Quotes are ASCII characters. -/
theorem IsQuote.lt {quote : Char} (hquote : IsQuote quote) : quote.toNat < 128 := by
  rcases hquote with rfl | rfl <;> decide

/-- A quote is no backslash. -/
theorem IsQuote.ne_backslash {quote : Char} (hquote : IsQuote quote) : quote ≠ '\\' := by
  rcases hquote with rfl | rfl <;> decide

namespace Scanner

/-- The scanner between two characters, with a text ahead of it. -/
def before (depth : Nat) (quote : Option Char) (text : List Char) : Scanner :=
  ⟨depth, quote.map Char.toUInt8, utf8Bytes text⟩

/-- The run of a scanner is one step and the run that follows it. -/
theorem run_eq (s : Scanner) :
    s.run = match s.step with
      | .next t => t.run
      | .closed rest => some rest
      | .ended => none := by
  rw [run]
  split <;> simp_all

/-- A step that goes on leads to the same result. -/
theorem run_of_step {s t : Scanner} (h : s.step = .next t) : s.run = t.run := by
  rw [run_eq, h]

/-- The scanner gets from one state to another, in any number of steps. -/
def Reaches : Scanner → Scanner → Prop := Relation.ReflTransGen fun s t => s.step = .next t

/-- All states on the way lead to the same result. -/
theorem run_of_reaches {s t : Scanner} (h : s.Reaches t) : s.run = t.run := by
  induction h with
  | refl => rfl
  | tail _ hstep ih => exact ih.trans (run_of_step hstep)

/-- At the end of the text nothing is found. -/
@[simp] theorem run_nil (depth : Nat) (quote : Option UInt8) : run ⟨depth, quote, []⟩ = none := by
  rw [run_eq]
  rfl

/-- With no text ahead nothing is found. -/
@[simp] theorem run_before_nil (depth : Nat) (quote : Option Char) :
    (before depth quote []).run = none := run_nil _ _

/-! ## Bytes without a meaning -/

/-- The byte is not an ASCII character. -/
theorem ne_toUInt8 {byte : UInt8} (hbyte : 128 ≤ byte.toNat) {c : Char} (hc : c.toNat < 128) :
    byte ≠ c.toUInt8 := by
  intro h
  rw [h, toNat_toUInt8 hc] at hbyte
  omega

/-- A byte of a character beyond ASCII changes nothing. -/
theorem step_of_le {byte : UInt8} (hbyte : 128 ≤ byte.toNat) (depth : Nat) {quote : Option Char}
    (hquote : ∀ c ∈ quote, c.toNat < 128) (rest : List UInt8) :
    step ⟨depth, quote.map Char.toUInt8, byte :: rest⟩ =
      .next ⟨depth, quote.map Char.toUInt8, rest⟩ := by
  cases quote with
  | none => simp [step, ne_toUInt8 hbyte]
  | some quote => simp [step, ne_toUInt8 hbyte, hquote quote rfl]

/-- Bytes of characters beyond ASCII are passed over. -/
theorem reaches_append_of_le {bytes : List UInt8} (hbytes : ∀ byte ∈ bytes, 128 ≤ byte.toNat)
    (depth : Nat) {quote : Option Char} (hquote : ∀ c ∈ quote, c.toNat < 128)
    (rest : List UInt8) :
    Reaches ⟨depth, quote.map Char.toUInt8, bytes ++ rest⟩
      ⟨depth, quote.map Char.toUInt8, rest⟩ := by
  induction bytes with
  | nil => exact .refl
  | cons byte bytes ih =>
    rw [List.forall_mem_cons] at hbytes
    exact .head (step_of_le hbytes.1 depth hquote _) (ih hbytes.2)

/-- Characters beyond ASCII are passed over. -/
theorem reaches_before_of_le {c : Char} (hc : 128 ≤ c.toNat) (depth : Nat) {quote : Option Char}
    (hquote : ∀ c ∈ quote, c.toNat < 128) (text : List Char) :
    (before depth quote (c :: text)).Reaches (before depth quote text) := by
  unfold before
  rw [utf8Bytes_cons]
  exact reaches_append_of_le (fun _ => le_of_mem_utf8EncodeChar hc) depth hquote _

/-- What an escape leaves of a character is passed over. -/
theorem run_tail_utf8Bytes (depth : Nat) {quote : Option Char}
    (hquote : ∀ c ∈ quote, c.toNat < 128) (c : Char) (text : List Char) :
    run ⟨depth, quote.map Char.toUInt8, (utf8Bytes (c :: text)).tail⟩ =
      (before depth quote text).run := by
  by_cases hc : c.toNat < 128
  · rw [utf8Bytes_cons_of_lt hc]
    rfl
  · rw [utf8Bytes_cons, List.tail_append_of_ne_nil String.utf8EncodeChar_ne_nil]
    exact run_of_reaches (reaches_append_of_le
      (fun _ hbyte => le_of_mem_utf8EncodeChar (Nat.not_lt.mp hc) (List.mem_of_mem_tail hbyte))
      depth hquote _)

/-! ## Escapes and strings -/

/-- A backslash takes the next character with it. -/
theorem run_escape (depth : Nat) {quote : Option Char} (hquote : ∀ c ∈ quote, IsQuote c) (c : Char)
    (text : List Char) :
    (before depth quote ('\\' :: c :: text)).run = (before depth quote text).run := by
  rw [← run_tail_utf8Bytes depth (fun c hc => (hquote c hc).lt) c text]
  apply run_of_step
  unfold before
  rw [utf8Bytes_cons_of_lt (by decide)]
  cases quote <;> simp [step]

/-- A backslash at the end of the text has nothing to take. -/
theorem run_escape_end (depth : Nat) (quote : Option Char) :
    (before depth quote ['\\']).run = none := by
  have hstep : (before depth quote ['\\']).step = .next ⟨depth, quote.map Char.toUInt8, []⟩ := by
    unfold before
    rw [utf8Bytes_cons_of_lt (by decide)]
    cases quote <;> simp [step]
  rw [run_of_step hstep, run_nil]

/-- A string ends with the quote that opened it. -/
theorem run_quote_close (depth : Nat) {quote : Char} (hquote : IsQuote quote) (text : List Char) :
    (before depth (some quote) (quote :: text)).run = (before depth none text).run := by
  apply run_of_step
  unfold before
  rw [utf8Bytes_cons_of_lt hquote.lt]
  have hne : quote.toUInt8 ≠ '\\'.toUInt8 :=
    mt (toUInt8_inj hquote.lt (by decide)).mp hquote.ne_backslash
  simp [step, hne]

/-- Every other character of a string is passed over. -/
theorem run_quoted (depth : Nat) {quote c : Char} (hquote : IsQuote quote) (hne : c ≠ quote)
    (hescape : c ≠ '\\') (text : List Char) :
    (before depth (some quote) (c :: text)).run = (before depth (some quote) text).run := by
  by_cases hc : c.toNat < 128
  · apply run_of_step
    unfold before
    rw [utf8Bytes_cons_of_lt hc]
    have hquote' : c.toUInt8 ≠ quote.toUInt8 := mt (toUInt8_inj hc hquote.lt).mp hne
    have hescape' : c.toUInt8 ≠ '\\'.toUInt8 := mt (toUInt8_inj hc (by decide)).mp hescape
    simp [step, hquote', hescape']
  · exact run_of_reaches (reaches_before_of_le (Nat.not_lt.mp hc) depth
      (fun d hd => Option.some.inj hd ▸ hquote.lt) text)

/-- A quote opens a string. -/
theorem run_quote_open (depth : Nat) {quote : Char} (hquote : IsQuote quote) (text : List Char) :
    (before depth none (quote :: text)).run = (before depth (some quote) text).run := by
  apply run_of_step
  unfold before
  rw [utf8Bytes_cons_of_lt hquote.lt]
  rcases hquote with rfl | rfl <;> rfl

/-! ## Parentheses and other characters -/

/-- An opening parenthesis makes the scanner one level deeper. -/
theorem step_open (depth : Nat) (text : List Char) :
    (before depth none ('(' :: text)).step = .next (before (depth + 1) none text) := by
  unfold before
  rw [utf8Bytes_cons_of_lt (by decide)]
  rfl

/-- A run goes on behind an opening parenthesis, one level deeper. -/
theorem run_open (depth : Nat) (text : List Char) :
    (before depth none ('(' :: text)).run = (before (depth + 1) none text).run :=
  run_of_step (step_open depth text)

/-- The parenthesis that closes the first one ends the run. -/
theorem run_close_last (text : List Char) :
    (before 1 none (')' :: text)).run = some (utf8Bytes text) := by
  rw [run_eq, before, utf8Bytes_cons_of_lt (by decide)]
  rfl

/-- A parenthesis that closes another than the first one makes the scanner one level less deep. -/
theorem step_close (depth : Nat) (text : List Char) :
    (before (depth + 2) none (')' :: text)).step = .next (before (depth + 1) none text) := by
  unfold before
  rw [utf8Bytes_cons_of_lt (by decide)]
  rfl

/-- A run goes on behind a parenthesis that closes another than the first one. -/
theorem run_close (depth : Nat) (text : List Char) :
    (before (depth + 2) none (')' :: text)).run = (before (depth + 1) none text).run :=
  run_of_step (step_close depth text)

/-- Plain characters are passed over. -/
theorem reaches_plain (depth : Nat) {c : Char} (hplain : IsPlain c) {text : List Char}
    (hcomment : c = '/' → text.head? ≠ some '*') :
    (before depth none (c :: text)).Reaches (before depth none text) := by
  by_cases hc : c.toNat < 128
  · obtain ⟨hescape, hquote, hopen, hclose⟩ := hplain
    simp only [IsQuote, not_or] at hquote
    have hne {d : Char} (hd : d.toNat < 128) (h : c ≠ d) : c.toUInt8 ≠ d.toUInt8 :=
      mt (toUInt8_inj hc hd).mp h
    have hslash : ¬ (c.toUInt8 = '/'.toUInt8 ∧ (utf8Bytes text).head? = some '*'.toUInt8) := by
      intro h
      exact hcomment ((toUInt8_inj hc (by decide)).mp h.1)
        ((head?_utf8Bytes_iff (by decide) text).mp h.2)
    apply Relation.ReflTransGen.single
    unfold before
    rw [utf8Bytes_cons_of_lt hc]
    simp only [step, Option.map_none, hslash, hne (by decide) hescape, hne (by decide) hquote.1,
      hne (by decide) hquote.2, hne (by decide) hopen, hne (by decide) hclose, or_self, if_false]
  · exact reaches_before_of_le (Nat.not_lt.mp hc) depth (fun d hd => by cases hd) text

/-- A run goes on behind a plain character that starts no comment. -/
theorem run_plain (depth : Nat) {c : Char} (hplain : IsPlain c) {text : List Char}
    (hcomment : c = '/' → text.head? ≠ some '*') :
    (before depth none (c :: text)).run = (before depth none text).run :=
  run_of_reaches (reaches_plain depth hplain hcomment)

/-! ## Comments -/

/-- A comment starts with a slash and a star. -/
theorem step_comment (depth : Nat) (text : List Char) :
    (before depth none ('/' :: '*' :: text)).step =
      .next ⟨depth, none, afterComment (utf8Bytes text)⟩ := by
  unfold before
  rw [utf8Bytes_cons_of_lt (by decide), utf8Bytes_cons_of_lt (by decide)]
  rfl

/-- A run goes on behind the end of a comment. -/
theorem run_comment (depth : Nat) (text : List Char) :
    (before depth none ('/' :: '*' :: text)).run =
      run ⟨depth, none, afterComment (utf8Bytes text)⟩ :=
  run_of_step (step_comment depth text)

end Scanner

/-- A comment ends with a star and a slash. -/
theorem afterComment_close (text : List Char) :
    afterComment (utf8Bytes ('*' :: '/' :: text)) = utf8Bytes text := by
  rw [utf8Bytes_cons_of_lt (by decide), utf8Bytes_cons_of_lt (by decide)]
  rfl

/-- Bytes of characters beyond ASCII do not end a comment. -/
theorem afterComment_append_of_le {bytes : List UInt8}
    (hbytes : ∀ byte ∈ bytes, 128 ≤ byte.toNat) (rest : List UInt8) :
    afterComment (bytes ++ rest) = afterComment rest := by
  induction bytes with
  | nil => rfl
  | cons byte bytes ih =>
    rw [List.forall_mem_cons] at hbytes
    have hne : byte ≠ '*'.toUInt8 := Scanner.ne_toUInt8 hbytes.1 (by decide)
    rw [List.cons_append, afterComment, if_neg (fun h => hne h.1), ih hbytes.2]

/-- Every other place of a comment is passed over. -/
theorem afterComment_cons {c : Char} {text : List Char}
    (h : ¬ (c = '*' ∧ text.head? = some '/')) :
    afterComment (utf8Bytes (c :: text)) = afterComment (utf8Bytes text) := by
  by_cases hc : c.toNat < 128
  · rw [utf8Bytes_cons_of_lt hc, afterComment, if_neg]
    intro hclose
    exact h ⟨(toUInt8_inj hc (by decide)).mp hclose.1,
      (head?_utf8Bytes_iff (by decide) text).mp hclose.2⟩
  · rw [utf8Bytes_cons]
    exact afterComment_append_of_le (fun _ => le_of_mem_utf8EncodeChar (Nat.not_lt.mp hc)) _

end MathExpr

end CssValues
