import CssValues.Proofs.MathExpr.Cursor
import CssValues.Proofs.MathExpr.NestedCall
import CssValues.Proofs.Text.LetterCase

/-!
# Reading by positions stays inside the text

An expression that is read by positions gets the same answers as one that is read from its front: it
is the same bare call, has the same calls inside it and the same text. So no number below zero is
taken, no byte is read that is not there, and no rest of the text starts inside a character, in any
text at all. The parenthesis after a name is where each scan starts.
-/

namespace CssValues

namespace MathExpr

/-! ## Characters of names -/

/-- The characters of names are the letters and digits of ASCII, the hyphen and the underscore. -/
theorem isNameChar_iff_toNat {c : Char} :
    isNameChar c = true ↔
      (65 ≤ c.toNat ∧ c.toNat ≤ 90) ∨ (97 ≤ c.toNat ∧ c.toNat ≤ 122) ∨
        (48 ≤ c.toNat ∧ c.toNat ≤ 57) ∨ c.toNat = 45 ∨ c.toNat = 95 := by
  have hchar (d : Char) : (c == d) = true ↔ c.toNat = d.toNat := by
    rw [beq_iff_eq, Char.toNat_inj]
  have hlower : c.isLower = true ↔ 97 ≤ c.toNat ∧ c.toNat ≤ 122 := by
    change (decide (c.val ≥ 'a'.val) && decide (c.val ≤ 'z'.val)) = true ↔ _
    rw [Bool.and_eq_true, decide_eq_true_eq, decide_eq_true_eq, ge_iff_le,
      UInt32.le_iff_toNat_le, UInt32.le_iff_toNat_le]
    rfl
  change (((c.isUpper || c.isLower) || c.isDigit) || c == '-' || c == '_') = true ↔ _
  simp only [Bool.or_eq_true, isUpper_iff_toNat, hlower, Char.isDigit_iff_toNat, hchar, or_assoc]
  rfl

/-- Upper and lower case continue names alike. -/
theorem isNameChar_toLower (c : Char) : isNameChar c.toLower = isNameChar c := by
  rw [Bool.eq_iff_iff, isNameChar_iff_toNat, isNameChar_iff_toNat, toNat_toLower]
  split <;> omega

/-- Only the parenthesis has the parenthesis as its lower case. -/
theorem toLower_eq_paren_iff {c : Char} : c.toLower = '(' ↔ c = '(' := by
  rw [← Char.toNat_inj, ← Char.toNat_inj, toNat_toLower]
  change _ = 40 ↔ c.toNat = 40
  split <;> omega

namespace ByPosition

/-- The last byte of a character tells whether the character continues a name. -/
theorem exists_last_byte (c : Char) :
    ∃ byte, (String.utf8EncodeChar c)[c.utf8Size - 1]? = some byte ∧
      isNameByte byte = isNameChar c := by
  have hbyte (byte : UInt8) : (Char.ofUInt8 byte).toNat = byte.toNat := rfl
  by_cases hc : c.toNat < 128
  · have hsize : c.utf8Size = 1 := by
      rw [← String.length_utf8EncodeChar, utf8EncodeChar_of_lt hc, List.length_singleton]
    refine ⟨c.toUInt8, by rw [utf8EncodeChar_of_lt hc, hsize]; rfl, ?_⟩
    have hsame : Char.ofUInt8 c.toUInt8 = c := by
      rw [← Char.toNat_inj, hbyte, toNat_toUInt8 hc]
    rw [isNameByte, hsame]
  · have hlast : c.utf8Size - 1 < (String.utf8EncodeChar c).length := by
      rw [String.length_utf8EncodeChar]
      have hsize := c.utf8Size_pos
      omega
    refine ⟨_, List.getElem?_eq_getElem hlast, ?_⟩
    have hle := le_of_mem_utf8EncodeChar (Nat.not_lt.mp hc) (List.getElem_mem hlast)
    rw [Bool.eq_iff_iff, isNameByte, isNameChar_iff_toNat, isNameChar_iff_toNat, hbyte]
    omega

/-! ## Searches that may fail -/

/-- A search whose tests are all defined is defined, and finds what one of them finds. -/
theorem exists_anyM {α : Type} {p : α → Except Fault Bool} {items : List α}
    (h : ∀ x ∈ items, ∃ b, p x = .ok b) :
    ∃ b, items.anyM p = .ok b ∧ (b = true ↔ ∃ x ∈ items, p x = .ok true) := by
  induction items with
  | nil => exact ⟨false, rfl, by simp⟩
  | cons x items ih =>
    rw [List.forall_mem_cons] at h
    obtain ⟨⟨b, hb⟩, h⟩ := h
    obtain ⟨found, hfound, hiff⟩ := ih h
    cases b with
    | true =>
      exact ⟨true, by simp [List.anyM, hb, bind, Except.bind, pure, Except.pure], by simp [hb]⟩
    | false => exact ⟨found, by simp [List.anyM, hb, bind, Except.bind, hfound], by simp [hb, hiff]⟩

/-! ## Bare calls -/

/-- Texts that agree up to case have the same number of bytes. -/
theorem length_utf8Bytes_of_sameUpToCase {text other : List Char}
    (h : sameUpToCase text other = true) :
    (utf8Bytes text).length = (utf8Bytes other).length := by
  have hbytes := congrArg List.length (sameUpToCase_iff_utf8Bytes.mp h)
  simpa only [List.length_map] using hbytes

/-- The parenthesis of a call is behind the bytes of its name. -/
theorem callStart?_eq (name : String) (text : List Char) :
    callStart? name text =
      .ok ((afterCall? name text).map fun _ => (utf8Bytes name.toList).length) := by
  unfold callStart?
  dsimp only
  cases hcall : afterCall? name text with
  | some rest =>
    obtain ⟨head, rfl, hname⟩ := afterCall?_eq_some_iff.mp hcall
    rw [← length_utf8Bytes_of_sameUpToCase hname, splitAt?_eq_some_iff.mpr ⟨rfl, rfl⟩]
    dsimp only
    rw [if_pos hname, restFrom_append]
    rfl
  | none =>
    split
    next => rfl
    next head back hsplit =>
      obtain ⟨rfl, hlength⟩ := splitAt?_eq_some_iff.mp hsplit
      split
      next hname =>
        have hhead : back.head? ≠ some '(' := by
          intro hopen
          obtain ⟨rest, rfl⟩ := List.head?_eq_some_iff.mp hopen
          rw [afterCall?_eq_some_iff.mpr ⟨head, rfl, hname⟩] at hcall
          contradiction
        rw [← hlength, restFrom_append]
        simp only [bind, Except.bind, if_neg hhead]
        rfl
      next => rfl

/-- A scan starts at the parenthesis after a name. -/
theorem getElem?_of_callStart? {name : String} {text : List Char} {start : Nat}
    (h : callStart? name text = .ok (some start)) :
    (utf8Bytes text)[start]? = some '('.toUInt8 := by
  rw [callStart?_eq, Except.ok.injEq, Option.map_eq_some_iff] at h
  obtain ⟨rest, hcall, rfl⟩ := h
  obtain ⟨head, rfl, hname⟩ := afterCall?_eq_some_iff.mp hcall
  exact (getElem?_utf8Bytes_eq_iff (by decide)).mpr
    ⟨head, rest, rfl, length_utf8Bytes_of_sameUpToCase hname⟩

/-- The test for a call of one function is defined, and is that of the text read from its front. -/
theorem isCallOf_eq (name : String) (text : List Char) :
    isCallOf name text = .ok (MathExpr.isCallOf name text) := by
  unfold isCallOf MathExpr.isCallOf
  rw [callStart?_eq]
  cases hcall : afterCall? name text with
  | none => rfl
  | some rest =>
    obtain ⟨head, rfl, hname⟩ := afterCall?_eq_some_iff.mp hcall
    have hopen : (utf8Bytes (head ++ '(' :: rest))[(utf8Bytes head).length]? = some '('.toUInt8 :=
      (getElem?_utf8Bytes_eq_iff (by decide)).mpr ⟨head, rest, rfl, rfl⟩
    obtain ⟨closing, hrun, hlt, hscan⟩ :=
      Cursor.exists_run (s := { index := (utf8Bytes head).length }) (Or.inr ⟨rfl, hopen⟩)
    have hclosing : afterClosing? ('(' :: rest) =
        closing.map fun index => (utf8Bytes (head ++ '(' :: rest)).drop (index + 1) := by
      rw [← hscan]
      exact congrArg (fun bytes => Scanner.run ⟨0, none, bytes⟩)
        (drop_utf8Bytes_append head ('(' :: rest) 0).symm
    have hpos := Nat.zero_lt_of_lt (List.getElem?_eq_some_iff.mp hopen).1
    obtain ⟨last, hlast⟩ := Nat.exists_eq_add_of_le' hpos
    -- The text has a last byte, and only it leaves nothing behind it.
    have hnothing : (closing == some last) = (afterClosing? ('(' :: rest) == some []) := by
      rw [hclosing, Bool.eq_iff_iff, beq_iff_eq, beq_iff_eq, Option.map_eq_some_iff]
      constructor
      · rintro rfl
        exact ⟨last, rfl, List.drop_eq_nil_of_le (Nat.le_of_eq hlast)⟩
      · rintro ⟨index, rfl, hdrop⟩
        have hindex := hlt index rfl
        have hle := List.drop_eq_nil_iff.mp hdrop
        rw [show index = last by omega]
    simp only [Option.map_some, bind, Except.bind, ← length_utf8Bytes_of_sameUpToCase hname, hrun,
      hlast, pred, pure, Except.pure, hnothing]

/-- The test for a bare call is defined, and is that of the expression read from its front. -/
theorem isMathFunction_eq (e : MathExpr) : isMathFunction e = .ok e.isMathFunction := by
  obtain ⟨b, hb, hiff⟩ := exists_anyM (p := fun name => isCallOf name e.trimmed)
    fun name (_ : name ∈ bareFunctions) => ⟨_, isCallOf_eq name e.trimmed⟩
  rw [isMathFunction, hb, Except.ok.injEq, Bool.eq_iff_iff, hiff,
    isMathFunction_iff_exists_isCallOf]
  exact exists_congr fun name => and_congr_right fun _ => by
    rw [isCallOf_eq, Except.ok.injEq]

/-- The text is defined, and is that of the expression read from its front. -/
theorem cssText_eq (e : MathExpr) : cssText e = .ok (CssValues.cssText e) := by
  rw [cssText, isMathFunction_eq]
  simp only [bind, Except.bind, pure, Except.pure, CssValues.cssText]
  split <;> rfl

/-! ## Calls inside an expression -/

/-- The byte before a name is there unless the name is at the start, and tells whether the character
before the name continues it. -/
theorem startsName_eq (front back : List Char) :
    startsName (front ++ back) (utf8Bytes front).length =
      .ok (!(front.getLast?.map isNameChar).getD false) := by
  rcases List.eq_nil_or_concat' front with rfl | ⟨front, c, rfl⟩
  · rfl
  · obtain ⟨byte, hbyte, hname⟩ := exists_last_byte c
    have hsize := c.utf8Size_pos
    have hlength : (utf8Bytes (front ++ [c])).length =
        (utf8Bytes front).length + (c.utf8Size - 1) + 1 := by
      rw [utf8Bytes_append, List.length_append, length_utf8Bytes_cons, utf8Bytes_nil]
      simp only [List.length_nil]
      omega
    have hbefore : byteAt (front ++ [c] ++ back) ((utf8Bytes front).length + (c.utf8Size - 1)) =
        .ok byte := by
      rw [byteAt, List.append_assoc, getElem?_utf8Bytes_append, List.singleton_append,
        utf8Bytes_cons, List.getElem?_append_left, hbyte]
      rw [String.length_utf8EncodeChar]
      omega
    rw [startsName, hlength, if_neg (Nat.succ_ne_zero _)]
    simp only [pred, bind, Except.bind, hbefore, pure, Except.pure, hname,
      List.getLast?_concat, Option.map_some, Option.getD_some]

/-- At the places of a name all tests are defined, and one of them succeeds exactly when a call
stands at a place where no longer name ends. -/
theorem exists_anyM_startsName {name : List Char} (hname : '(' ∉ name) (text : List Char) :
    ∃ b, (places (name ++ ['(']) text).anyM (startsName text) = .ok b ∧
      (b = true ↔ ∃ front back, text = front ++ back ∧ name ++ ['('] <+: back ∧
        (front.getLast?.map isNameChar).getD false = false) := by
  have hdefined : ∀ place ∈ places (name ++ ['(']) text, ∃ b, startsName text place = .ok b := by
    intro place hplace
    obtain ⟨front, back, rfl, rfl, -⟩ := (mem_places_iff hname).mp hplace
    exact ⟨_, startsName_eq front back⟩
  obtain ⟨b, hb, hiff⟩ := exists_anyM hdefined
  refine ⟨b, hb, hiff.trans ?_⟩
  constructor
  · rintro ⟨place, hplace, hstarts⟩
    obtain ⟨front, back, rfl, rfl, hback⟩ := (mem_places_iff hname).mp hplace
    rw [startsName_eq, Except.ok.injEq, Bool.not_eq_true'] at hstarts
    exact ⟨front, back, rfl, hback, hstarts⟩
  · rintro ⟨front, back, rfl, hback, hlast⟩
    refine ⟨_, (mem_places_iff hname).mpr ⟨front, back, rfl, rfl, hback⟩, ?_⟩
    rw [startsName_eq, hlast, Bool.not_false]

/-- A text starts with a call when its lower case starts with the name and a parenthesis. -/
theorem isPrefix_map_toLower_iff {name : String}
    (hname : name.toList.map Char.toLower = name.toList) {text : List Char} :
    name.toList ++ ['('] <+: text.map Char.toLower ↔ startsWithCall name text = true := by
  rw [startsWithCall_iff]
  constructor
  · rintro ⟨lower, hlower⟩
    rw [List.append_assoc, eq_comm, List.map_eq_append_iff] at hlower
    obtain ⟨head, tail, rfl, hhead, htail⟩ := hlower
    obtain ⟨c, rest, rfl, hparen, -⟩ := List.map_eq_cons_iff.mp htail
    obtain rfl := toLower_eq_paren_iff.mp hparen
    exact ⟨head, rest, rfl, sameUpToCase_iff.mpr (hhead.trans hname.symm)⟩
  · rintro ⟨head, rest, rfl, hhead⟩
    refine ⟨rest.map Char.toLower, ?_⟩
    rw [List.map_append, sameUpToCase_iff.mp hhead, hname, List.append_assoc]
    rfl

/-- The search for calls is defined, and is that of the expression read from its front. -/
theorem isNested_eq (e : MathExpr) : isNested e = .ok e.isNested := by
  have hparen : ∀ name ∈ mathFunctions, '(' ∉ name.toList := by decide
  have hlower : ∀ name ∈ mathFunctions, name.toList.map Char.toLower = name.toList := by decide
  have hlast (front : List Char) :
      (front.map Char.toLower).getLast?.map isNameChar = front.getLast?.map isNameChar := by
    rw [List.getLast?_map, Option.map_map]
    exact congrArg (Option.map · _) (funext isNameChar_toLower)
  have hplaces (name : String) (hname : name ∈ mathFunctions) :=
    exists_anyM_startsName (hparen name hname) (e.expression.toList.map Char.toLower)
  obtain ⟨b, hb, hiff⟩ := exists_anyM fun name hname => (hplaces name hname).imp fun _ h => h.1
  rw [isNested, hb, Except.ok.injEq, Bool.eq_iff_iff, hiff, MathExpr.isNested, hasCall_iff]
  constructor
  · rintro ⟨name, hname, hfound⟩
    obtain ⟨found, hfound', hiff⟩ := hplaces name hname
    cases hfound'.symm.trans hfound
    obtain ⟨_, _, hsplit, hback, hends⟩ := hiff.mp rfl
    obtain ⟨front, back, htext, rfl, rfl⟩ := List.map_eq_append_iff.mp hsplit
    rw [hlast] at hends
    have hcall := (isPrefix_map_toLower_iff (hlower name hname)).mp hback
    exact ⟨front, back, htext, ⟨name, hname, hcall⟩, hends⟩
  · rintro ⟨front, back, htext, ⟨name, hname, hcall⟩, hends⟩
    obtain ⟨found, hfound, hiff⟩ := hplaces name hname
    have hback := (isPrefix_map_toLower_iff (hlower name hname)).mpr hcall
    refine ⟨name, hname, hfound.trans (congrArg _ (hiff.mpr ?_))⟩
    refine ⟨front.map Char.toLower, back.map Char.toLower, ?_, hback, by rw [hlast, hends]⟩
    rw [htext, List.map_append]

end ByPosition

/-! ## All readings -/

/-- Read by positions, every expression gets its answers and its text. No number below zero is taken
on the way, no byte is read outside the text and no rest starts inside a character. Each scan starts
at the parenthesis after the name of a function and is safe until its end. -/
theorem readings_by_position_are_defined (e : MathExpr) :
    ByPosition.isMathFunction e = .ok e.isMathFunction ∧
      ByPosition.isNested e = .ok e.isNested ∧
      ByPosition.cssText e = .ok (cssText e) ∧
      ∀ name ∈ bareFunctions, ∃ start?, ByPosition.callStart? name e.trimmed = .ok start? ∧
        ∀ start ∈ start?, ByPosition.ScansSafely e.trimmed start := by
  refine ⟨ByPosition.isMathFunction_eq e, ByPosition.isNested_eq e, ByPosition.cssText_eq e,
    fun name _ => ⟨_, ByPosition.callStart?_eq name e.trimmed, fun start hstart => ?_⟩⟩
  have hcall : ByPosition.callStart? name e.trimmed = .ok (some start) := by
    rw [ByPosition.callStart?_eq, Option.mem_def.mp hstart]
  exact ByPosition.scansSafely (ByPosition.getElem?_of_callStart? hcall)

/-- An escape takes the cursor between the two bytes of `é`, where the text does not split, and the
comment after it hides a parenthesis. The scan is safe and the expression gets its answer. -/
theorem scan_over_escape_is_defined :
    let e : MathExpr := ⟨"min(\\é/*)*/)"⟩
    "min" ∈ bareFunctions ∧ ByPosition.callStart? "min" e.trimmed = .ok (some 3) ∧
      ByPosition.Cursor.ReachesIn e.trimmed { index := 3 } 2 { index := 6, depth := 1 } ∧
      ByPosition.splitAt? 6 e.trimmed = none ∧ ByPosition.ScansSafely e.trimmed 3 ∧
      ByPosition.isMathFunction e = .ok e.isMathFunction := by
  intro e
  have htext : e.trimmed = "min(\\é/*)*/)".toList := by decide
  have hname : "min" ∈ bareFunctions := by decide
  have hstart : ByPosition.callStart? "min" e.trimmed = .ok (some 3) := by
    rw [htext]
    rfl
  have hsplit : ByPosition.splitAt? 6 e.trimmed = none := by
    rw [htext]
    rfl
  have hreaches :
      ByPosition.Cursor.ReachesIn e.trimmed { index := 3 } 2 { index := 6, depth := 1 } := by
    rw [htext]
    exact .step (.step .start rfl) rfl
  obtain ⟨hmath, -, -, hscans⟩ := readings_by_position_are_defined e
  obtain ⟨start?, hcall, hsafe⟩ := hscans "min" hname
  cases hstart.symm.trans hcall
  exact ⟨hname, hstart, hreaches, hsplit, hsafe 3 rfl, hmath⟩

end MathExpr

end CssValues
