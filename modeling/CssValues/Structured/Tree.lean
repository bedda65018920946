import CssValues.Binary64.Basic

/-!
# Trees of plain data

The structured form of a value is a tree of plain data, in which numbers are `Binary64` words. The
fields of a record are found by name; their order and the fields that nobody asks for do not
matter, but none that is asked for may be repeated. A list can stand for a record: it holds exactly
the fields that are asked for, in order.
-/

namespace CssValues

/-- A tree of plain data. -/
inductive Tree where
  | null
  | bool (value : Bool)
  | number (value : Binary64)
  | text (value : String)
  | list (items : List Tree)
  | record (fields : List (String × Tree))

namespace Tree

/-- A record of one field, which names one of several alternatives and holds its content. -/
@[match_pattern] abbrev alternative (name : String) (content : Tree) : Tree :=
  .record [(name, content)]

/-- The content of the one field of a name, if there is exactly one. -/
def field? (name : String) (fields : List (String × Tree)) : Option Tree :=
  match fields.filter (·.1 == name) with
  | [(_, content)] => some content
  | _ => none

/-- The contents of two fields: by name in a record, and by place in a list. -/
def pair? (first second : String) : Tree → Option (Tree × Tree)
  | .record fields => do return (← field? first fields, ← field? second fields)
  | .list [content, other] => some (content, other)
  | _ => none

end Tree

end CssValues
