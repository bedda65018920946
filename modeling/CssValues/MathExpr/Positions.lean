import CssValues.MathExpr.Basic

/-!
# Reading an expression by positions

The scanner of `Scan` holds the bytes that are ahead of it. The same text can be read in place, as
an array of bytes with positions that count from zero. Some operations are partial then: there is no
number below zero, no byte beyond the last one, and no rest of the text that starts inside a
character. Each of them ends in a `Fault` where it is not defined, so a reading by positions that
comes to an answer has never left the text.
-/

namespace CssValues

namespace MathExpr

namespace ByPosition

/-- What is not defined about a position. -/
inductive Fault where
  /-- The number below zero. -/
  | belowZero
  /-- The byte at a position that the text does not have. -/
  | noByte
  /-- The rest of the text from a position inside a character or beyond the text. -/
  | noRest
deriving DecidableEq

/-! ## Operations on positions -/

/-- The number below. -/
def pred : Nat → Except Fault Nat
  | 0 => .error .belowZero
  | n + 1 => .ok n

/-- The byte at a position. -/
def byteAt (text : List Char) (index : Nat) : Except Fault UInt8 :=
  match (utf8Bytes text)[index]? with
  | some byte => .ok byte
  | none => .error .noByte

/-- The text before a position and the rest from it on. Only the ends of characters, and the start
of the text, split it. -/
def splitAt? : Nat → List Char → Option (List Char × List Char)
  | 0, text => some ([], text)
  | _ + 1, [] => none
  | index + 1, c :: text =>
    if c.utf8Size ≤ index + 1 then
      (splitAt? (index + 1 - c.utf8Size) text).map fun (front, back) => (c :: front, back)
    else none

/-- The rest of the text from a position on. -/
def restFrom (text : List Char) (index : Nat) : Except Fault (List Char) :=
  match splitAt? index text with
  | some (_, back) => .ok back
  | none => .error .noRest

/-- The places of a pattern, as `places`, in a text that starts at some position and whose first
characters are passed over because they are inside a place already found. -/
def placesFrom (pattern : List Char) : (passed index : Nat) → List Char → List Nat
  | _, _, [] => []
  | passed + 1, index, c :: text => placesFrom pattern passed (index + c.utf8Size) text
  | 0, index, c :: text =>
    if pattern.isPrefixOf (c :: text) then
      index :: placesFrom pattern (pattern.length - 1) (index + c.utf8Size) text
    else placesFrom pattern 0 (index + c.utf8Size) text

/-- The positions at which a pattern starts in a text, none inside the one before it. -/
def places (pattern text : List Char) : List Nat := placesFrom pattern 0 0 text

/-! ## The scanner -/

/-- A scanner at a position, with the parentheses that are open and the quote of the string it is
in. An escape at the end of the text takes the position one beyond the end. -/
structure Cursor where
  index : Nat
  depth : Nat := 0
  quote : Option UInt8 := none

namespace Cursor

/-- What a step of a cursor comes to. -/
inductive Outcome where
  /-- It goes on. -/
  | next (cursor : Cursor)
  /-- It is at the parenthesis that closes the first one. -/
  | closing (index : Nat)
  /-- It is beyond the text. -/
  | ended

/-- The position of the last byte of the comment that starts at a position, or the end of the text
if the comment is never closed. -/
def commentEnd (text : List Char) (index : Nat) : Except Fault Nat := do
  let rest ← restFrom text (index + 2)
  match (places ['*', '/'] rest).head? with
  | some close => return index + 2 + close + 1
  | none => return (utf8Bytes text).length

/-- One step of a cursor: a byte, a byte with the one that it escapes, or a comment. -/
def step (text : List Char) (s : Cursor) : Except Fault Outcome :=
  if s.index < (utf8Bytes text).length then do
    let byte ← byteAt text s.index
    match s.quote with
    | some quote =>
      if byte = '\\'.toUInt8 then return .next { s with index := s.index + 2 }
      else if byte = quote then return .next { s with index := s.index + 1, quote := none }
      else return .next { s with index := s.index + 1 }
    | none =>
      if byte = '\\'.toUInt8 then return .next { s with index := s.index + 2 }
      else if byte = '/'.toUInt8 ∧ (utf8Bytes text)[s.index + 1]? = some '*'.toUInt8 then
        return .next { s with index := (← commentEnd text s.index) + 1 }
      else if byte = '\x22'.toUInt8 ∨ byte = '\x27'.toUInt8 then
        return .next { s with index := s.index + 1, quote := some byte }
      else if byte = '('.toUInt8 then
        return .next { s with index := s.index + 1, depth := s.depth + 1 }
      else if byte = ')'.toUInt8 then
        let depth ← pred s.depth
        if depth = 0 then return .closing s.index
        else return .next { s with index := s.index + 1, depth }
      else return .next { s with index := s.index + 1 }
  else return .ended

/-- An answer that comes from an earlier one. -/
theorem exists_of_bind_eq_ok {α β : Type} {x : Except Fault α} {f : α → Except Fault β} {b : β}
    (h : x >>= f = .ok b) : ∃ a, x = .ok a ∧ f a = .ok b := by
  cases x with
  | error fault => cases h
  | ok a => exact ⟨a, rfl, h⟩

/-- A comment does not end before it starts. -/
theorem le_of_commentEnd {text : List Char} {index last : Nat}
    (hindex : index ≤ (utf8Bytes text).length) (h : commentEnd text index = .ok last) :
    index ≤ last := by
  obtain ⟨rest, -, h⟩ := exists_of_bind_eq_ok h
  split at h <;> cases h
  · omega
  · exact hindex

/-- Every step starts inside the text and goes to a later position. -/
theorem index_lt_of_step {text : List Char} {s t : Cursor} (h : s.step text = .ok (.next t)) :
    s.index < (utf8Bytes text).length ∧ s.index < t.index := by
  unfold step at h
  split at h
  next hindex =>
    refine ⟨hindex, ?_⟩
    obtain ⟨byte, -, h⟩ := exists_of_bind_eq_ok h
    have hcomment (last : Nat) (hlast : commentEnd text s.index = .ok last) : s.index ≤ last :=
      le_of_commentEnd (Nat.le_of_lt hindex) hlast
    split at h
    · repeat' split at h
      all_goals cases h; simp
    · repeat' split at h
      · cases h; simp
      · obtain ⟨last, hlast, h⟩ := exists_of_bind_eq_ok h
        cases h
        exact Nat.lt_succ_of_le (hcomment last hlast)
      · cases h; simp
      · cases h; simp
      · obtain ⟨depth, -, h⟩ := exists_of_bind_eq_ok h
        split at h <;> cases h
        simp
      · cases h; simp
  next => cases h

/-- The position of the parenthesis that closes the first one that the cursor comes to. -/
def run (text : List Char) (s : Cursor) : Except Fault (Option Nat) :=
  match _step : s.step text with
  | .ok (.next t) => t.run text
  | .ok (.closing index) => .ok (some index)
  | .ok .ended => .ok none
  | .error fault => .error fault
termination_by (utf8Bytes text).length - s.index
decreasing_by
  have hstep := index_lt_of_step (by assumption)
  omega

end Cursor

/-! ## The expression -/

/-- The position of the parenthesis after the name at the start of a text, if the text starts with a
call of the function, up to ASCII case. -/
def callStart? (name : String) (text : List Char) : Except Fault (Option Nat) :=
  let length := (utf8Bytes name.toList).length
  match splitAt? length text with
  | none => .ok none
  | some (head, _) =>
    if sameUpToCase head name.toList then do
      let rest ← restFrom text length
      return if rest.head? = some '(' then some length else none
    else .ok none

/-- The whole text is one call of the function: its last byte closes the parenthesis of the call. -/
def isCallOf (name : String) (text : List Char) : Except Fault Bool := do
  match ← callStart? name text with
  | none => return false
  | some start =>
    let closing ← Cursor.run text { index := start }
    let last ← pred (utf8Bytes text).length
    return closing == some last

/-- The byte continues the name of a function. -/
def isNameByte (byte : UInt8) : Bool := isNameChar (Char.ofUInt8 byte)

/-- The name at a position is not the end of a longer one: the byte before it continues no name. -/
def startsName (text : List Char) (index : Nat) : Except Fault Bool :=
  if index = 0 then return true
  else do
    let byte ← byteAt text (← pred index)
    return !isNameByte byte

/-- The whole expression is one call of `min`, `max` or `clamp`. -/
def isMathFunction (e : MathExpr) : Except Fault Bool :=
  bareFunctions.anyM fun name => isCallOf name e.trimmed

/-- The expression, in lower case, contains a call of a math function. -/
def isNested (e : MathExpr) : Except Fault Bool :=
  let lower := e.expression.toList.map Char.toLower
  mathFunctions.anyM fun name =>
    (places (name.toList ++ ['(']) lower).anyM (startsName lower)

/-- The text of the expression. -/
def cssText (e : MathExpr) : Except Fault String := do
  let text := String.ofList e.trimmed
  if ← isMathFunction e then return text else return "calc(" ++ text ++ ")"

end ByPosition

end MathExpr

end CssValues
