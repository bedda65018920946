import CssValues.MathExpr.Positions
import CssValues.Proofs.Text.Utf8

/-!
# Positions in a text

A position splits a text when it is the number of bytes of the characters before it. The position of
an ASCII byte always does, however a reader has come to it: only bytes beyond ASCII are inside a
character. The places of a name and the parenthesis after it are never inside one another, so the
search for them finds every one.
-/

namespace CssValues

/-- The bytes of a text are those of its parts in order. -/
theorem utf8Bytes_append (front back : List Char) :
    utf8Bytes (front ++ back) = utf8Bytes front ++ utf8Bytes back := List.flatMap_append

/-- A text has as many bytes as its first character and the others have. -/
theorem length_utf8Bytes_cons (c : Char) (text : List Char) :
    (utf8Bytes (c :: text)).length = c.utf8Size + (utf8Bytes text).length := by
  rw [utf8Bytes_cons, List.length_append, String.length_utf8EncodeChar]

/-- The bytes from the end of some characters on are those of the characters that follow. -/
theorem drop_utf8Bytes_append (front back : List Char) (count : Nat) :
    (utf8Bytes (front ++ back)).drop ((utf8Bytes front).length + count) =
      (utf8Bytes back).drop count := by
  rw [utf8Bytes_append, List.drop_length_add_append]

/-- The bytes behind the front of a text are those of its back. -/
theorem getElem?_utf8Bytes_append (front back : List Char) (index : Nat) :
    (utf8Bytes (front ++ back))[(utf8Bytes front).length + index]? = (utf8Bytes back)[index]? := by
  rw [utf8Bytes_append, List.getElem?_append_right (Nat.le_add_right _ _), Nat.add_sub_cancel_left]

/-- An ASCII byte is at the position of its character. -/
theorem getElem?_utf8Bytes_eq_iff {d : Char} (hd : d.toNat < 128) {text : List Char} {index : Nat} :
    (utf8Bytes text)[index]? = some d.toUInt8 ↔
      ∃ front back, text = front ++ d :: back ∧ (utf8Bytes front).length = index := by
  constructor
  · intro h
    induction text generalizing index with
    | nil => simp at h
    | cons c text ih =>
      rw [utf8Bytes_cons] at h
      by_cases hindex : index < (String.utf8EncodeChar c).length
      · rw [List.getElem?_append_left hindex] at h
        by_cases hc : c.toNat < 128
        · rw [utf8EncodeChar_of_lt hc, List.getElem?_singleton] at h
          split at h
          next hzero =>
            obtain rfl := (toUInt8_inj hc hd).mp (Option.some.inj h)
            exact ⟨[], text, rfl, hzero.symm⟩
          next => contradiction
        · have hbyte := le_of_mem_utf8EncodeChar (Nat.not_lt.mp hc) (List.mem_of_getElem? h)
          rw [toNat_toUInt8 hd] at hbyte
          omega
      · rw [List.getElem?_append_right (Nat.not_lt.mp hindex)] at h
        obtain ⟨front, back, rfl, hlength⟩ := ih h
        refine ⟨c :: front, back, rfl, ?_⟩
        rw [utf8Bytes_cons, List.length_append]
        omega
  · rintro ⟨front, back, rfl, rfl⟩
    rw [← Nat.add_zero (utf8Bytes front).length, getElem?_utf8Bytes_append,
      utf8Bytes_cons_of_lt hd, List.getElem?_cons_zero]

namespace MathExpr

namespace ByPosition

/-! ## Splitting a text -/

/-- A position splits a text into the characters whose bytes it counts, and the others. -/
theorem splitAt?_eq_some_iff {index : Nat} {text front back : List Char} :
    splitAt? index text = some (front, back) ↔
      text = front ++ back ∧ (utf8Bytes front).length = index := by
  induction text generalizing index front with
  | nil =>
    cases index with
    | zero => cases front <;> simp [splitAt?, eq_comm]
    | succ index => cases front <;> simp [splitAt?]
  | cons c text ih =>
    have hsize := c.utf8Size_pos
    cases index with
    | zero => cases front <;> simp [splitAt?, utf8Bytes_eq_nil_iff, eq_comm]
    | succ index =>
      cases front with
      | nil => simp [splitAt?]
      | cons d front =>
        rw [splitAt?, List.cons_append, List.cons_eq_cons, length_utf8Bytes_cons]
        split
        next hle =>
          simp only [Option.map_eq_some_iff, Prod.mk.injEq, List.cons_eq_cons, Prod.exists]
          constructor
          · rintro ⟨front, back, hsplit, ⟨rfl, rfl⟩, rfl⟩
            obtain ⟨rfl, hlength⟩ := ih.mp hsplit
            exact ⟨⟨rfl, rfl⟩, by omega⟩
          · rintro ⟨⟨rfl, rfl⟩, hlength⟩
            exact ⟨front, back, ih.mpr ⟨rfl, by omega⟩, ⟨rfl, rfl⟩, rfl⟩
        next hgt =>
          refine ⟨nofun, ?_⟩
          rintro ⟨⟨rfl, rfl⟩, hlength⟩
          omega

/-- The rest from the end of some characters on. -/
theorem restFrom_append (front back : List Char) :
    restFrom (front ++ back) (utf8Bytes front).length = .ok back := by
  rw [restFrom, splitAt?_eq_some_iff.mpr ⟨rfl, rfl⟩]

/-! ## Places of a pattern -/

/-- The pattern stands at a place of a text that starts at some position, behind some number of
characters at least. -/
def IsPlace (pattern : List Char) (least index : Nat) (text : List Char) (place : Nat) : Prop :=
  ∃ front back, text = front ++ back ∧ least ≤ front.length ∧
    index + (utf8Bytes front).length = place ∧ pattern <+: back

section Place

variable {pattern text : List Char} {least index place : Nat}

/-- The places behind the first character of a text are those of the text after it. -/
theorem isPlace_succ_cons {c : Char} :
    IsPlace pattern (least + 1) index (c :: text) place ↔
      IsPlace pattern least (index + c.utf8Size) text place := by
  constructor
  · rintro ⟨front, back, htext, hleast, hplace, hback⟩
    obtain ⟨d, front, rfl⟩ := List.exists_cons_of_length_pos (Nat.zero_lt_of_lt hleast)
    obtain ⟨rfl, rfl⟩ := List.cons_eq_cons.mp htext
    rw [length_utf8Bytes_cons, ← Nat.add_assoc] at hplace
    exact ⟨front, back, rfl, Nat.le_of_succ_le_succ hleast, hplace, hback⟩
  · rintro ⟨front, back, rfl, hleast, hplace, hback⟩
    rw [Nat.add_assoc, ← length_utf8Bytes_cons] at hplace
    exact ⟨c :: front, back, rfl, Nat.succ_le_succ hleast, hplace, hback⟩

/-- A place is the start of the text or behind its first character. -/
theorem isPlace_zero_iff :
    IsPlace pattern 0 index text place ↔
      (pattern <+: text ∧ place = index) ∨ IsPlace pattern 1 index text place := by
  constructor
  · rintro ⟨front, back, rfl, -, hplace, hback⟩
    by_cases hfront : front = []
    · subst hfront
      exact Or.inl ⟨hback, hplace.symm⟩
    · exact Or.inr ⟨front, back, rfl, List.length_pos_iff.mpr hfront, hplace, hback⟩
  · rintro (⟨hhere, rfl⟩ | ⟨front, back, htext, -, hplace, hback⟩)
    · exact ⟨[], text, rfl, Nat.zero_le _, rfl, hhere⟩
    · exact ⟨front, back, htext, Nat.zero_le _, hplace, hback⟩

end Place

/-! ## Places of a call -/

section Call

variable {name : List Char}

/-- A name and the parenthesis after it do not start inside another such place. -/
theorem length_le_of_isPrefix (hname : '(' ∉ name) {front back : List Char} (hfront : front ≠ [])
    (h : name ++ ['('] <+: front ++ back) (hback : name ++ ['('] <+: back) :
    (name ++ ['(']).length ≤ front.length := by
  apply Nat.le_of_not_lt
  intro hlength
  obtain ⟨rest, hrest⟩ := h
  obtain ⟨rest', rfl⟩ := hback
  have hpos := List.length_pos_iff.mpr hfront
  rw [List.length_append, List.length_singleton] at hlength
  -- The parenthesis of the outer place would be a character of the inner name.
  have hparen := congrArg (·[name.length]?) hrest
  simp only [List.append_assoc, List.getElem?_append_right (Nat.le_refl name.length), Nat.sub_self,
    List.singleton_append, List.getElem?_cons_zero] at hparen
  rw [List.getElem?_append_right (by omega), List.getElem?_append_left (by omega)] at hparen
  exact hname (List.mem_of_getElem? hparen.symm)

/-- Such a place at the start of a text is the only one inside itself. -/
theorem isPlace_one_iff_of_isPrefix (hname : '(' ∉ name) {index place : Nat} {text : List Char}
    (h : name ++ ['('] <+: text) :
    IsPlace (name ++ ['(']) 1 index text place ↔
      IsPlace (name ++ ['(']) (name ++ ['(']).length index text place := by
  constructor
  · rintro ⟨front, back, rfl, hleast, hplace, hback⟩
    have hfront : front ≠ [] := List.length_pos_iff.mp hleast
    exact ⟨front, back, rfl, length_le_of_isPrefix hname hfront h hback, hplace, hback⟩
  · rintro ⟨front, back, htext, hleast, hplace, hback⟩
    rw [List.length_append] at hleast
    exact ⟨front, back, htext, Nat.le_trans (Nat.le_add_left 1 _) hleast, hplace, hback⟩

/-- The search from a position finds the places behind the characters that it passes over. -/
theorem mem_placesFrom_iff (hname : '(' ∉ name) {passed index place : Nat} {text : List Char} :
    place ∈ placesFrom (name ++ ['(']) passed index text ↔
      IsPlace (name ++ ['(']) passed index text place := by
  induction text generalizing passed index with
  | nil => simp [placesFrom, IsPlace]
  | cons c text ih =>
    cases passed with
    | succ passed => rw [placesFrom, ih, isPlace_succ_cons]
    | zero =>
      have hlength : (name ++ ['(']).length - 1 + 1 = (name ++ ['(']).length := by simp
      rw [placesFrom, isPlace_zero_iff, ← List.isPrefixOf_iff_prefix]
      split
      next hprefix =>
        rw [List.mem_cons, ih, ← isPlace_succ_cons, hlength,
          isPlace_one_iff_of_isPrefix hname (List.isPrefixOf_iff_prefix.mp hprefix),
          and_iff_right hprefix]
      next hprefix =>
        rw [ih, ← isPlace_succ_cons, or_iff_right fun h => hprefix h.1]

/-- The search finds every place at which the name stands before a parenthesis. -/
theorem mem_places_iff (hname : '(' ∉ name) {place : Nat} {text : List Char} :
    place ∈ places (name ++ ['(']) text ↔
      ∃ front back, text = front ++ back ∧ (utf8Bytes front).length = place ∧
        name ++ ['('] <+: back := by
  rw [places, mem_placesFrom_iff hname, IsPlace]
  simp only [Nat.zero_le, true_and, Nat.zero_add]

end Call

end ByPosition

end MathExpr

end CssValues
