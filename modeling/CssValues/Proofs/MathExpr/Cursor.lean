import CssValues.Proofs.MathExpr.Scanner
import CssValues.Proofs.Text.Positions

/-!
# A cursor inside parentheses

A cursor starts at an opening parenthesis. From there on a parenthesis is open at every place, so
there is one to close whenever it meets a closing one. A comment starts with two ASCII bytes, so the
rest behind them starts at a character, even if an escape has taken the cursor into the middle of
one before. No step is undefined then, and the cursor does what the scanner does that holds the
bytes ahead.
-/

namespace CssValues

namespace MathExpr

namespace ByPosition

/-! ## Comments -/

/-- The end of a comment is the first place of a star and a slash. -/
theorem head?_places_close (index : Nat) (text : List Char) :
    (∃ close, (placesFrom ['*', '/'] 0 index text).head? = some (index + close) ∧
      close + 2 ≤ (utf8Bytes text).length ∧
      afterComment (utf8Bytes text) = (utf8Bytes text).drop (close + 2)) ∨
    ((placesFrom ['*', '/'] 0 index text).head? = none ∧ afterComment (utf8Bytes text) = []) := by
  induction text generalizing index with
  | nil => exact Or.inr ⟨rfl, rfl⟩
  | cons c text ih =>
    rw [placesFrom]
    split
    next hprefix =>
      obtain ⟨rest, hrest⟩ := List.isPrefixOf_iff_prefix.mp hprefix
      rw [← hrest]
      refine Or.inl ⟨0, rfl, ?_, ?_⟩
      · rw [utf8Bytes_append, List.length_append]
        exact Nat.le_add_right _ _
      · exact (afterComment_close rest).trans (drop_utf8Bytes_append ['*', '/'] rest 0).symm
    next hprefix =>
      have hcons : afterComment (utf8Bytes (c :: text)) = afterComment (utf8Bytes text) := by
        apply afterComment_cons
        rintro ⟨rfl, hslash⟩
        obtain ⟨rest, rfl⟩ := List.head?_eq_some_iff.mp hslash
        exact hprefix (by simp)
      rcases ih (index + c.utf8Size) with ⟨close, hhead, hle, hafter⟩ | ⟨hhead, hafter⟩
      · refine Or.inl ⟨c.utf8Size + close, by rw [hhead, Nat.add_assoc], ?_, ?_⟩
        · rw [length_utf8Bytes_cons]
          omega
        · rw [hcons, hafter, utf8Bytes_cons, Nat.add_assoc, ← String.length_utf8EncodeChar,
            List.drop_length_add_append]
      · exact Or.inr ⟨hhead, hcons.trans hafter⟩

/-- The text splits behind the two bytes that start a comment. -/
theorem exists_eq_append_comment {text : List Char} {index : Nat}
    (hslash : (utf8Bytes text)[index]? = some '/'.toUInt8)
    (hstar : (utf8Bytes text)[index + 1]? = some '*'.toUInt8) :
    ∃ front back, text = front ++ '/' :: '*' :: back ∧ (utf8Bytes front).length = index := by
  obtain ⟨front, back, rfl, hindex⟩ := (getElem?_utf8Bytes_eq_iff (by decide)).mp hslash
  have hhead : (utf8Bytes back).head? = some '*'.toUInt8 := by
    rw [← hstar, ← hindex, getElem?_utf8Bytes_append, utf8Bytes_cons_of_lt (by decide),
      List.getElem?_cons_succ, List.head?_eq_getElem?]
  obtain ⟨back, rfl⟩ := List.head?_eq_some_iff.mp ((head?_utf8Bytes_iff (by decide) back).mp hhead)
  exact ⟨front, back, rfl, hindex⟩

namespace Cursor

/-- The end of a comment is defined, and the cursor goes on behind it as a scanner does. -/
theorem exists_commentEnd {text : List Char} {index : Nat}
    (hslash : (utf8Bytes text)[index]? = some '/'.toUInt8)
    (hstar : (utf8Bytes text)[index + 1]? = some '*'.toUInt8) :
    ∃ last, commentEnd text index = .ok last ∧ index < last ∧ last ≤ (utf8Bytes text).length ∧
      afterComment ((utf8Bytes text).drop (index + 2)) = (utf8Bytes text).drop (last + 1) := by
  obtain ⟨front, back, rfl, rfl⟩ := exists_eq_append_comment hslash hstar
  have hsplit : front ++ '/' :: '*' :: back = (front ++ ['/', '*']) ++ back := by simp
  have hopen : (utf8Bytes front).length + 2 = (utf8Bytes (front ++ ['/', '*'])).length := by
    rw [utf8Bytes_append, List.length_append]
    rfl
  have hlength : (utf8Bytes (front ++ ['/', '*'] ++ back)).length =
      (utf8Bytes front).length + 2 + (utf8Bytes back).length := by
    rw [hopen, utf8Bytes_append, List.length_append]
  have hrest :
      restFrom (front ++ ['/', '*'] ++ back) ((utf8Bytes front).length + 2) = .ok back := by
    rw [hopen, restFrom_append]
  have hdrop (count : Nat) : (utf8Bytes (front ++ ['/', '*'] ++ back)).drop
      ((utf8Bytes front).length + 2 + count) = (utf8Bytes back).drop count := by
    rw [hopen, drop_utf8Bytes_append]
  rw [hsplit, commentEnd, hrest, hlength, ← Nat.add_zero ((utf8Bytes front).length + 2), hdrop,
    List.drop_zero]
  rcases head?_places_close 0 back with ⟨close, hhead, hle, hafter⟩ | ⟨hhead, hafter⟩
  · rw [Nat.zero_add] at hhead
    refine ⟨(utf8Bytes front).length + 2 + close + 1, ?_, by omega, by omega, ?_⟩
    · simp only [places, hhead, bind, Except.bind, pure, Except.pure]
    · exact hafter.trans (hdrop (close + 2)).symm
  · refine ⟨(utf8Bytes front).length + 2 + (utf8Bytes back).length, ?_, by omega, by omega, ?_⟩
    · simp only [places, hhead, bind, Except.bind, pure, Except.pure]
    · rw [hafter, Nat.add_assoc _ _ 1, hdrop, List.drop_eq_nil_of_le (Nat.le_succ _)]

/-! ## Steps -/

/-- The scanner with the bytes from the position on ahead of it. -/
def toScanner (text : List Char) (s : Cursor) : Scanner :=
  ⟨s.depth, s.quote, (utf8Bytes text).drop s.index⟩

/-- A parenthesis is open, or the cursor is at one that it opens next. -/
def IsInside (text : List Char) (s : Cursor) : Prop :=
  0 < s.depth ∨ (s.quote = none ∧ (utf8Bytes text)[s.index]? = some '('.toUInt8)

/-- The outcome of a step is that of the scanner, at a later position if it goes on. -/
def Leads (text : List Char) (s : Cursor) : Outcome → Prop
  | .next t => s.index < t.index ∧ t.index ≤ (utf8Bytes text).length + 1 ∧ 0 < t.depth ∧
      (s.toScanner text).step = .next (t.toScanner text)
  | .closing index => index = s.index ∧ index < (utf8Bytes text).length ∧
      (s.toScanner text).step = .closed ((utf8Bytes text).drop (index + 1))
  | .ended => (s.toScanner text).step = .ended

/-- A step of the scanner inside a string. -/
theorem step_toScanner_some {text : List Char} {index : Nat} {byte : UInt8}
    (hbyte : (utf8Bytes text)[index]? = some byte) (depth : Nat) (quote : UInt8) :
    (toScanner text ⟨index, depth, some quote⟩).step =
      if byte = '\\'.toUInt8 then .next (toScanner text ⟨index + 2, depth, some quote⟩)
      else if byte = quote then .next (toScanner text ⟨index + 1, depth, none⟩)
      else .next (toScanner text ⟨index + 1, depth, some quote⟩) := by
  obtain ⟨hindex, rfl⟩ := List.getElem?_eq_some_iff.mp hbyte
  simp only [toScanner, List.drop_eq_getElem_cons hindex, Scanner.step, List.tail_drop]

/-- A step of the scanner outside strings. -/
theorem step_toScanner_none {text : List Char} {index : Nat} {byte : UInt8}
    (hbyte : (utf8Bytes text)[index]? = some byte) (depth : Nat) :
    (toScanner text ⟨index, depth, none⟩).step =
      if byte = '\\'.toUInt8 then .next (toScanner text ⟨index + 2, depth, none⟩)
      else if byte = '/'.toUInt8 ∧ (utf8Bytes text)[index + 1]? = some '*'.toUInt8 then
        .next ⟨depth, none, afterComment ((utf8Bytes text).drop (index + 2))⟩
      else if byte = '\x22'.toUInt8 ∨ byte = '\x27'.toUInt8 then
        .next (toScanner text ⟨index + 1, depth, some byte⟩)
      else if byte = '('.toUInt8 then .next (toScanner text ⟨index + 1, depth + 1, none⟩)
      else if byte = ')'.toUInt8 then
        if depth - 1 = 0 then .closed ((utf8Bytes text).drop (index + 1))
        else .next (toScanner text ⟨index + 1, depth - 1, none⟩)
      else .next (toScanner text ⟨index + 1, depth, none⟩) := by
  obtain ⟨hindex, rfl⟩ := List.getElem?_eq_some_iff.mp hbyte
  simp only [toScanner, List.drop_eq_getElem_cons hindex, Scanner.step, List.tail_drop,
    List.head?_drop]

/-- Inside the text a cursor goes on by one or two positions, with a parenthesis open. -/
theorem leads_next {text : List Char} {s t : Cursor} (hindex : s.index < (utf8Bytes text).length)
    (hdepth : 0 < t.depth) (hmove : t.index = s.index + 1 ∨ t.index = s.index + 2)
    (hscan : (s.toScanner text).step = .next (t.toScanner text)) : s.Leads text (.next t) :=
  ⟨by omega, by omega, hdepth, hscan⟩

/-- Inside a string every step is defined, and does what the scanner does. -/
theorem exists_step_some {text : List Char} {index depth : Nat} (quote : UInt8)
    (hindex : index < (utf8Bytes text).length) (hdepth : 0 < depth) :
    ∃ outcome, step text ⟨index, depth, some quote⟩ = .ok outcome ∧
      Leads text ⟨index, depth, some quote⟩ outcome := by
  have hbyte := List.getElem?_eq_getElem hindex
  have hscan := step_toScanner_some hbyte depth quote
  rw [step, if_pos hindex]
  simp only [byteAt, hbyte, bind, Except.bind]
  split
  next hescape =>
    exact ⟨_, rfl, leads_next hindex hdepth (.inr rfl) (hscan.trans (if_pos hescape))⟩
  rw [if_neg (by assumption)] at hscan
  split
  next hclose =>
    exact ⟨_, rfl, leads_next hindex hdepth (.inl rfl) (hscan.trans (if_pos hclose))⟩
  next hclose =>
    exact ⟨_, rfl, leads_next hindex hdepth (.inl rfl) (hscan.trans (if_neg hclose))⟩

/-- Outside strings every step is defined where a parenthesis is open or opens next, and does what
the scanner does. -/
theorem exists_step_none {text : List Char} {index depth : Nat} {byte : UInt8}
    (hbyte : (utf8Bytes text)[index]? = some byte) (hdepth : byte ≠ '('.toUInt8 → 0 < depth) :
    ∃ outcome, step text ⟨index, depth, none⟩ = .ok outcome ∧
      Leads text ⟨index, depth, none⟩ outcome := by
  have hindex : index < (utf8Bytes text).length := (List.getElem?_eq_some_iff.mp hbyte).1
  have hscan := step_toScanner_none hbyte depth
  rw [step, if_pos hindex]
  simp only [byteAt, hbyte, bind, Except.bind]
  split
  next hescape =>
    have hdepth := hdepth (by rw [hescape]; decide)
    exact ⟨_, rfl, leads_next hindex hdepth (.inr rfl) (hscan.trans (if_pos hescape))⟩
  rw [if_neg (by assumption)] at hscan
  split
  next hcomment =>
    have hdepth := hdepth (by rw [hcomment.1]; decide)
    obtain ⟨last, hlast, hlt, hle, hafter⟩ := exists_commentEnd (hcomment.1 ▸ hbyte) hcomment.2
    rw [if_pos hcomment, hafter] at hscan
    rw [hlast]
    exact ⟨_, rfl, Nat.lt_succ_of_lt hlt, Nat.succ_le_succ hle, hdepth, hscan⟩
  rw [if_neg (by assumption)] at hscan
  split
  next hquote =>
    have hdepth := hdepth (by rcases hquote with rfl | rfl <;> decide)
    exact ⟨_, rfl, leads_next hindex hdepth (.inl rfl) (hscan.trans (if_pos hquote))⟩
  rw [if_neg (by assumption)] at hscan
  split
  next hopen =>
    exact ⟨_, rfl, leads_next hindex depth.succ_pos (.inl rfl) (hscan.trans (if_pos hopen))⟩
  have hdepth := hdepth (by assumption)
  rw [if_neg (by assumption)] at hscan
  split
  next hclose =>
    rw [if_pos hclose] at hscan
    obtain ⟨depth, rfl⟩ := Nat.exists_eq_add_of_le' hdepth
    simp only [pred]
    split
    next hlast => exact ⟨_, rfl, rfl, hindex, hscan.trans (if_pos hlast)⟩
    next hlast =>
      have hdepth := Nat.pos_of_ne_zero hlast
      exact ⟨_, rfl, leads_next hindex hdepth (.inl rfl) (hscan.trans (if_neg hlast))⟩
  next hclose =>
    exact ⟨_, rfl, leads_next hindex hdepth (.inl rfl) (hscan.trans (if_neg hclose))⟩

/-- Inside parentheses every step is defined, and does what the scanner does. -/
theorem exists_step {text : List Char} {s : Cursor} (hinside : s.IsInside text) :
    ∃ outcome, s.step text = .ok outcome ∧ s.Leads text outcome := by
  obtain ⟨index, depth, quote⟩ := s
  by_cases hindex : index < (utf8Bytes text).length
  · cases quote with
    | some quote => exact exists_step_some quote hindex (hinside.resolve_right nofun)
    | none =>
      apply exists_step_none (List.getElem?_eq_getElem hindex)
      intro hbyte
      refine hinside.resolve_right fun hopen => hbyte ?_
      exact Option.some.inj ((List.getElem?_eq_getElem hindex).symm.trans hopen.2)
  · refine ⟨.ended, if_neg hindex, ?_⟩
    simp [Leads, toScanner, List.drop_eq_nil_of_le (Nat.not_lt.mp hindex), Scanner.step]

/-! ## Runs -/

/-- The run of a cursor is one step and the run that follows it. -/
theorem run_eq (text : List Char) (s : Cursor) :
    s.run text = match s.step text with
      | .ok (.next t) => t.run text
      | .ok (.closing index) => .ok (some index)
      | .ok .ended => .ok none
      | .error fault => .error fault := by
  rw [run]
  split <;> simp_all

/-- Inside parentheses every run comes to an end, which is that of the scanner. -/
theorem exists_run {text : List Char} {s : Cursor} (hinside : s.IsInside text) :
    ∃ closing, s.run text = .ok closing ∧
      (∀ index ∈ closing, index < (utf8Bytes text).length) ∧
      (s.toScanner text).run = closing.map fun index => (utf8Bytes text).drop (index + 1) := by
  induction hleft : (utf8Bytes text).length + 1 - s.index using Nat.strongRecOn
    generalizing s with
  | ind left ih =>
    obtain ⟨outcome, hstep, hleads⟩ := exists_step hinside
    rw [run_eq, hstep, Scanner.run_eq]
    cases outcome with
    | next t =>
      obtain ⟨hlt, hle, hdepth, hscan⟩ := hleads
      rw [hscan]
      exact ih _ (by omega) (Or.inl hdepth) rfl
    | closing index =>
      obtain ⟨-, hlt, hscan⟩ := hleads
      rw [hscan]
      exact ⟨some index, rfl, fun _ h => Option.some.inj h ▸ hlt, rfl⟩
    | ended =>
      rw [show (s.toScanner text).step = .ended from hleads]
      exact ⟨none, rfl, nofun, rfl⟩

/-- The cursor gets from one state to another in a number of steps. -/
inductive ReachesIn (text : List Char) (s : Cursor) : Nat → Cursor → Prop where
  | start : ReachesIn text s 0 s
  | step {count : Nat} {t u : Cursor} :
      ReachesIn text s count t → t.step text = .ok (.next u) → ReachesIn text s (count + 1) u

/-- A cursor stays inside parentheses, and goes on by one position at least in each step. -/
theorem isInside_of_reachesIn {text : List Char} {s t : Cursor} {count : Nat}
    (hinside : s.IsInside text) (hindex : s.index ≤ (utf8Bytes text).length + 1)
    (h : ReachesIn text s count t) :
    t.IsInside text ∧ s.index + count ≤ t.index ∧ t.index ≤ (utf8Bytes text).length + 1 := by
  induction h with
  | start => exact ⟨hinside, Nat.le_refl _, hindex⟩
  | step _ hstep ih =>
    obtain ⟨hinside, hle, -⟩ := ih
    obtain ⟨outcome, hstep', hleads⟩ := exists_step hinside
    cases hstep.symm.trans hstep'
    obtain ⟨hlt, hbound, hdepth, -⟩ := hleads
    exact ⟨Or.inl hdepth, by omega, hbound⟩

/-! ## Safety -/

/-- What a step at a state needs, and what it keeps. -/
structure IsSafe (text : List Char) (s : Cursor) : Prop where
  /-- The step is defined. -/
  exists_step : ∃ outcome, s.step text = .ok outcome
  /-- The step goes to a later position. -/
  index_lt : ∀ t, s.step text = .ok (.next t) → s.index < t.index
  /-- There is a parenthesis to close where one is closed. -/
  depth_pos : s.quote = none → (utf8Bytes text)[s.index]? = some ')'.toUInt8 → 0 < s.depth
  /-- The text splits where a comment starts. -/
  splits : s.quote = none → (utf8Bytes text)[s.index]? = some '/'.toUInt8 →
    (utf8Bytes text)[s.index + 1]? = some '*'.toUInt8 → (splitAt? (s.index + 2) text).isSome

/-- A step inside parentheses is safe: the parenthesis it closes has been opened, and it splits the
text behind a comment at a place between characters. -/
theorem IsInside.isSafe {text : List Char} {s : Cursor} (h : s.IsInside text) :
    s.IsSafe text where
  exists_step := (Cursor.exists_step h).imp fun _ hstep => hstep.1
  index_lt _ hstep := (index_lt_of_step hstep).2
  depth_pos _ hclose := by
    refine h.resolve_right fun hopen => ?_
    have hbyte := Option.some.inj (hclose.symm.trans hopen.2)
    contradiction
  splits _ hslash hstar := by
    obtain ⟨front, back, rfl, hindex⟩ := exists_eq_append_comment hslash hstar
    have hsplit : splitAt? (s.index + 2) (front ++ '/' :: '*' :: back) =
        some (front ++ ['/', '*'], back) := by
      rw [splitAt?_eq_some_iff, utf8Bytes_append, List.length_append, hindex]
      exact ⟨by simp, rfl⟩
    rw [hsplit]
    rfl

end Cursor

/-- What a scan from a position keeps to. -/
structure ScansSafely (text : List Char) (start : Nat) : Prop where
  /-- It starts at an opening parenthesis. -/
  opening : (utf8Bytes text)[start]? = some '('.toUInt8
  /-- It comes to an end. -/
  returns : ∃ closing, Cursor.run text { index := start } = .ok closing
  /-- All states on the way are safe, each step goes on by one position at least, and none goes
  farther than one position beyond the text. -/
  states : ∀ count s, Cursor.ReachesIn text { index := start } count s →
    s.IsSafe text ∧ start + count ≤ s.index ∧ s.index ≤ (utf8Bytes text).length + 1

/-- A scan from an opening parenthesis is safe. -/
theorem scansSafely {text : List Char} {start : Nat}
    (hopen : (utf8Bytes text)[start]? = some '('.toUInt8) : ScansSafely text start := by
  have hinside : Cursor.IsInside text { index := start } := Or.inr ⟨rfl, hopen⟩
  have hstart := (List.getElem?_eq_some_iff.mp hopen).1
  refine ⟨hopen, (Cursor.exists_run hinside).imp fun _ hrun => hrun.1, fun count s hreaches => ?_⟩
  obtain ⟨hinside, hle, hbound⟩ :=
    Cursor.isInside_of_reachesIn hinside (Nat.le_succ_of_le (Nat.le_of_lt hstart)) hreaches
  exact ⟨hinside.isSafe, hle, hbound⟩

end ByPosition

end MathExpr

end CssValues
