import CssValues.Text.AsciiCase

/-!
# Parentheses and function names in a text

A scanner goes over the UTF-8 bytes of a text and looks for the parenthesis that closes the first
one. Parentheses do not count inside a comment, which ends with the first `*/`, nor inside a string,
which ends with the quote that opened it. A backslash takes the next byte with it, in strings and
outside them but not in comments. The first byte of a character beyond ASCII may go that way, and
the bytes that are left of the character mean nothing to the scanner.

The search for the names of functions is plainer: it looks at every place of the text alike.
-/

namespace CssValues

/-- The UTF-8 bytes of a text. -/
def utf8Bytes (text : List Char) : List UInt8 := text.flatMap String.utf8EncodeChar

namespace MathExpr

/-- The bytes after the first `*/`; none if there is no such place. -/
def afterComment : List UInt8 → List UInt8
  | [] => []
  | byte :: rest =>
    if byte = '*'.toUInt8 ∧ rest.head? = some '/'.toUInt8 then rest.tail else afterComment rest

/-- A scanner: how many parentheses are open, the quote of the string it is in, and the bytes ahead
of it. -/
structure Scanner where
  depth : Nat
  quote : Option UInt8
  rest : List UInt8

namespace Scanner

/-- What a scanner does next. -/
inductive Step where
  /-- It goes on. -/
  | next (scanner : Scanner)
  /-- It has passed the parenthesis that closes the first one, with these bytes ahead of it. -/
  | closed (rest : List UInt8)
  /-- It is at the end of the text. -/
  | ended

/-- One step of a scanner: a byte, a byte with the one that it escapes, or a comment. -/
def step (s : Scanner) : Step :=
  match s.rest, s.quote with
  | [], _ => .ended
  | byte :: rest, some quote =>
    if byte = '\\'.toUInt8 then .next ⟨s.depth, some quote, rest.tail⟩
    else if byte = quote then .next ⟨s.depth, none, rest⟩
    else .next ⟨s.depth, some quote, rest⟩
  | byte :: rest, none =>
    if byte = '\\'.toUInt8 then .next ⟨s.depth, none, rest.tail⟩
    else if byte = '/'.toUInt8 ∧ rest.head? = some '*'.toUInt8 then
      .next ⟨s.depth, none, afterComment rest.tail⟩
    else if byte = '\x22'.toUInt8 ∨ byte = '\x27'.toUInt8 then .next ⟨s.depth, some byte, rest⟩
    else if byte = '('.toUInt8 then .next ⟨s.depth + 1, none, rest⟩
    else if byte = ')'.toUInt8 then
      if s.depth - 1 = 0 then .closed rest else .next ⟨s.depth - 1, none, rest⟩
    else .next ⟨s.depth, none, rest⟩

end Scanner

/-- A comment leaves no more bytes ahead than there were. -/
theorem length_afterComment_le (bytes : List UInt8) :
    (afterComment bytes).length ≤ bytes.length := by
  induction bytes with
  | nil => exact Nat.le_refl _
  | cons byte rest ih =>
    simp only [afterComment]
    split
    · simp only [List.length_tail, List.length_cons]
      omega
    · exact Nat.le_succ_of_le ih

namespace Scanner

/-- Every step leaves fewer bytes ahead. -/
theorem length_rest_lt {s t : Scanner} (h : s.step = .next t) : t.rest.length < s.rest.length := by
  obtain ⟨depth, quote, bytes⟩ := s
  cases bytes with
  | nil => simp [step] at h
  | cons byte rest =>
    have hcomment := length_afterComment_le rest.tail
    have htail : rest.tail.length ≤ rest.length := by simp
    cases quote <;> simp only [step] at h <;> (repeat' split at h) <;> cases h
    all_goals simp only [List.length_cons]; omega

/-- The bytes after the parenthesis that closes the first one, once the scanner has found it. -/
def run (s : Scanner) : Option (List UInt8) :=
  match _step : s.step with
  | .next t => t.run
  | .closed rest => some rest
  | .ended => none
termination_by s.rest.length
decreasing_by exact length_rest_lt (by assumption)

end Scanner

/-- The bytes after the parenthesis that closes the one at the start of the text. -/
def afterClosing? (text : List Char) : Option (List UInt8) :=
  Scanner.run ⟨0, none, utf8Bytes text⟩

/-- The text after `name(`, if the text starts with that, up to ASCII case. -/
def afterCall? (name : String) (text : List Char) : Option (List Char) :=
  if sameUpToCase (text.take name.length) name.toList then
    match text.drop name.length with
    | '(' :: rest => some rest
    | _ => none
  else none

/-- The text starts with a call of the function. -/
def startsWithCall (name : String) (text : List Char) : Bool := (afterCall? name text).isSome

/-- The whole text is one call of the function. -/
def isCallOf (name : String) (text : List Char) : Bool :=
  match afterCall? name text with
  | some rest => afterClosing? ('(' :: rest) == some []
  | none => false

/-- The character continues the name of a function. Only ASCII letters and digits, the hyphen and
the underscore do. -/
def isNameChar (c : Char) : Bool := c.isAlphanum || c == '-' || c == '_'

/-- Some place of the text starts a call of one of the functions and is not inside a longer name.
The flag tells that the character before the text continues a name. -/
def hasCall (names : List String) : Bool → List Char → Bool
  | _, [] => false
  | inName, c :: rest =>
    (!inName && names.any fun name => startsWithCall name (c :: rest)) ||
      hasCall names (isNameChar c) rest

end MathExpr

end CssValues
