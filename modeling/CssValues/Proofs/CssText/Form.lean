import CssValues.Proofs.CssText.Quantity

/-!
# Forms of values

Every value without a math expression is written in one of three forms: as a keyword, as quantities
with a separator between them, or as such quantities behind an opening. The three never have a text
in common, for a keyword is a word and an opening starts as no quantity does. So two forms of one
layout have the same text exactly when they are equal.
-/

namespace CssValues

open Quantity (isQuantityChar isQuantityStart)

/-- What stands between the quantities of a type of values, and around those behind an opening. -/
structure Layout where
  separator : String
  opening : String
  closing : String
  /-- Some character of the separator is in no quantity. -/
  separator_split : ∃ before mark after, separator.toList = before ++ mark :: after ∧
    before.all isQuantityChar = true ∧ isQuantityChar mark = false
  /-- Some character of the opening is in no word. -/
  opening_other : ∃ c ∈ opening.toList, isWordChar c = false
  /-- No quantity starts as the opening does. -/
  opening_start : opening.toList.head?.any isQuantityStart = false

/-- A keyword, or quantities that may stand behind an opening. -/
inductive Form where
  | keyword (token : String)
  | plain (quantities : List Quantity)
  | enclosed (quantities : List Quantity)
deriving BEq

/-- The keyword is a word, or the quantities are valid. -/
def Form.IsValid : Form → Prop
  | keyword token => isWord token.toList = true
  | plain quantities | enclosed quantities => ∀ q ∈ quantities, q.IsValid

namespace Layout

variable (layout : Layout)

/-- The texts of the quantities in order, with the separator between neighbours. -/
def joined (quantities : List Quantity) : String :=
  layout.separator.intercalate (quantities.map Quantity.text)

/-- The text of a form. -/
def text : Form → String
  | .keyword token => token
  | .plain quantities => layout.joined quantities
  | .enclosed quantities => layout.opening ++ layout.joined quantities ++ layout.closing

/-! ## Quantities with separators -/

/-- One quantity has no separator. -/
theorem joined_singleton (q : Quantity) : layout.joined [q] = q.text := by
  rw [joined, List.map_singleton, String.intercalate_singleton]

/-- A separator stands between the first quantity and the others. -/
theorem joined_cons_cons (q r : Quantity) (rest : List Quantity) :
    layout.joined (q :: r :: rest) = q.text ++ layout.separator ++ layout.joined (r :: rest) := by
  rw [joined, List.map_cons, List.map_cons, String.intercalate_cons_cons, joined, List.map_cons]

/-- The joined text goes on behind the first quantity. -/
theorem exists_joined_eq_append (q : Quantity) (rest : List Quantity) :
    ∃ after, (layout.joined (q :: rest)).toList = q.text.toList ++ after := by
  cases rest with
  | nil => exact ⟨[], by rw [joined_singleton, List.append_nil]⟩
  | cons r rest =>
    refine ⟨layout.separator.toList ++ (layout.joined (r :: rest)).toList, ?_⟩
    rw [joined_cons_cons, String.toList_append, String.toList_append, List.append_assoc]

variable {layout}

/-- Quantities have a text that starts as the first of them does. -/
theorem exists_joined_eq_cons {q : Quantity} (hq : q.IsValid) (rest : List Quantity) :
    ∃ c after, (layout.joined (q :: rest)).toList = c :: after ∧ isQuantityStart c = true := by
  obtain ⟨after, happend⟩ := layout.exists_joined_eq_append q rest
  obtain ⟨c, own, hcons, hc⟩ := Quantity.exists_text_eq_cons hq
  exact ⟨c, own ++ after, by rw [happend, hcons, List.cons_append], hc⟩

/-- Some quantities have another text than none. -/
theorem joined_cons_ne_empty {q : Quantity} (hq : q.IsValid) (rest : List Quantity) :
    layout.joined (q :: rest) ≠ layout.joined [] := by
  intro h
  obtain ⟨c, after, hcons, -⟩ := layout.exists_joined_eq_cons hq rest
  rw [h] at hcons
  contradiction

/-- One quantity has another text than several. -/
theorem text_ne_joined_cons_cons {q : Quantity} (hq : q.IsValid) (r s : Quantity)
    (rest : List Quantity) : q.text ≠ layout.joined (r :: s :: rest) := by
  intro h
  obtain ⟨before, mark, after, hseparator, -, hmark⟩ := layout.separator_split
  have hmem : mark ∈ q.text.toList := by
    rw [h, joined_cons_cons, String.toList_append, String.toList_append, hseparator]
    simp
  rw [Quantity.isQuantityChar_of_mem_text hq hmem] at hmark
  contradiction

/-- The first separator ends the first quantity. -/
theorem eq_and_eq_of_joined_eq {q r : Quantity} (hq : q.IsValid) (hr : r.IsValid)
    {rest rest' : String}
    (h : q.text ++ layout.separator ++ rest = r.text ++ layout.separator ++ rest') :
    q.text = r.text ∧ rest = rest' := by
  obtain ⟨before, mark, after, hseparator, hbefore, hmark⟩ := layout.separator_split
  have hfront {q : Quantity} (hq : q.IsValid) :
      ∀ c ∈ q.text.toList ++ before, isQuantityChar c = true := by
    intro c hc
    rcases List.mem_append.mp hc with hown | hc
    · exact Quantity.isQuantityChar_of_mem_text hq hown
    · exact List.all_eq_true.mp hbefore c hc
  have hhead (rest : List Char) : ∀ c ∈ (mark :: rest).head?, isQuantityChar c = false := by
    intro c hc
    rw [← Option.some.inj hc]
    exact hmark
  have hsplit (q : Quantity) (rest : String) : (q.text ++ layout.separator ++ rest).toList =
      (q.text.toList ++ before) ++ mark :: (after ++ rest.toList) := by
    simp only [String.toList_append, hseparator, List.append_assoc, List.cons_append]
  have hlist := congrArg String.toList h
  rw [hsplit, hsplit] at hlist
  obtain ⟨hown, hrest⟩ :=
    eq_and_eq_of_append_eq (hfront hq) (hfront hr) (hhead _) (hhead _) hlist
  exact ⟨String.toList_inj.mp (List.append_cancel_right hown),
    String.toList_inj.mp (List.append_cancel_left (List.cons.inj hrest).2)⟩

/-- Lists of quantities have the same joined text exactly when they are equal. -/
theorem joined_eq_iff {quantities others : List Quantity}
    (hquantities : ∀ q ∈ quantities, q.IsValid) (hothers : ∀ r ∈ others, r.IsValid) :
    layout.joined quantities = layout.joined others ↔ (quantities == others) = true := by
  induction quantities generalizing others with
  | nil =>
    cases others with
    | nil => exact ⟨fun _ => rfl, fun _ => rfl⟩
    | cons r others =>
      have hne := layout.joined_cons_ne_empty (hothers r List.mem_cons_self) others
      exact ⟨fun h => absurd h.symm hne, fun h => nomatch h⟩
  | cons q quantities ih =>
    obtain ⟨hq, htail⟩ := List.forall_mem_cons.mp hquantities
    cases others with
    | nil => exact ⟨fun h => absurd h (joined_cons_ne_empty hq _), fun h => nomatch h⟩
    | cons r others =>
      obtain ⟨hr, htail'⟩ := List.forall_mem_cons.mp hothers
      have hrest := ih htail htail'
      change _ ↔ (q == r && quantities == others) = true
      rw [Bool.and_eq_true, ← hrest, ← Quantity.text_eq_iff hq hr]
      cases quantities with
      | nil =>
        cases others with
        | nil => simp only [joined_singleton, and_true]
        | cons s others =>
          rw [joined_singleton]
          exact ⟨fun h => absurd h (text_ne_joined_cons_cons hq r s others), fun h =>
            absurd h.2.symm (joined_cons_ne_empty (List.forall_mem_cons.mp htail').1 others)⟩
      | cons p quantities =>
        cases others with
        | nil =>
          rw [joined_singleton]
          exact ⟨fun h => absurd h.symm (text_ne_joined_cons_cons hr q p quantities), fun h =>
            absurd h.2 (joined_cons_ne_empty (List.forall_mem_cons.mp htail).1 quantities)⟩
        | cons s others =>
          rw [joined_cons_cons, joined_cons_cons]
          exact ⟨eq_and_eq_of_joined_eq hq hr, fun h => by rw [h.1, h.2]⟩

/-! ## Forms -/

/-- The texts of forms other than keywords are not words. -/
theorem isWord_joined_eq_false {quantities : List Quantity} (h : ∀ q ∈ quantities, q.IsValid) :
    isWord (layout.joined quantities).toList = false := by
  cases quantities with
  | nil => rfl
  | cons q rest =>
    obtain ⟨c, hmem, hc⟩ := Quantity.exists_mem_text (h q List.mem_cons_self)
    obtain ⟨after, happend⟩ := layout.exists_joined_eq_append q rest
    refine isWord_eq_false_of_mem ?_ hc
    rw [happend]
    exact List.mem_append_left after hmem

/-- The text behind an opening is not a word. -/
theorem isWord_enclosed_eq_false (layout : Layout) (inner : String) :
    isWord (layout.opening ++ inner ++ layout.closing).toList = false := by
  obtain ⟨c, hmem, hc⟩ := layout.opening_other
  refine isWord_eq_false_of_mem ?_ hc
  simp only [String.toList_append, List.mem_append, hmem, true_or]

/-- Quantities behind an opening do not have the text of quantities without one. -/
theorem joined_ne_enclosed {quantities : List Quantity} (h : ∀ q ∈ quantities, q.IsValid)
    (inner : String) : layout.joined quantities ≠ layout.opening ++ inner ++ layout.closing := by
  intro htext
  have hlist := congrArg String.toList htext
  rw [String.toList_append, String.toList_append, List.append_assoc] at hlist
  obtain ⟨d, hmem, -⟩ := layout.opening_other
  obtain ⟨c, opening, hopening⟩ := List.exists_cons_of_ne_nil (List.ne_nil_of_mem hmem)
  have hstart := layout.opening_start
  rw [hopening, List.head?_cons, Option.any_some] at hstart
  rw [hopening, List.cons_append] at hlist
  cases quantities with
  | nil => contradiction
  | cons q rest =>
    obtain ⟨b, after, hcons, hb⟩ :=
      layout.exists_joined_eq_cons (h q List.mem_cons_self) rest
    rw [hcons] at hlist
    rw [(List.cons.inj hlist).1, hstart] at hb
    contradiction

/-- Two forms of one layout have the same text exactly when they are equal. -/
theorem text_eq_iff {f g : Form} (hf : f.IsValid) (hg : g.IsValid) :
    layout.text f = layout.text g ↔ (f == g) = true := by
  have hword {token text : String} (htoken : isWord token.toList = true)
      (htext : isWord text.toList = false) : token ≠ text := by
    intro h
    rw [h, htext] at htoken
    contradiction
  cases f with
  | keyword token =>
    cases g with
    | keyword token' => exact beq_iff_eq.symm
    | plain others =>
      exact ⟨fun h => absurd h (hword hf (isWord_joined_eq_false hg)), fun h => nomatch h⟩
    | enclosed others =>
      exact ⟨fun h => absurd h (hword hf (isWord_enclosed_eq_false layout _)), fun h => nomatch h⟩
  | plain quantities =>
    cases g with
    | keyword token =>
      exact ⟨fun h => absurd h.symm (hword hg (isWord_joined_eq_false hf)), fun h => nomatch h⟩
    | plain others => exact joined_eq_iff hf hg
    | enclosed others =>
      exact ⟨fun h => absurd h (joined_ne_enclosed hf _), fun h => nomatch h⟩
  | enclosed quantities =>
    cases g with
    | keyword token =>
      exact ⟨fun h => absurd h.symm (hword hg (isWord_enclosed_eq_false layout _)),
        fun h => nomatch h⟩
    | plain others =>
      exact ⟨fun h => absurd h.symm (joined_ne_enclosed hg _), fun h => nomatch h⟩
    | enclosed others =>
      have hinner : layout.joined quantities = layout.joined others ↔
          (quantities == others) = true := joined_eq_iff hf hg
      refine Iff.trans ?_ hinner
      change layout.opening ++ layout.joined quantities ++ layout.closing =
        layout.opening ++ layout.joined others ++ layout.closing ↔ _
      rw [String.append_left_inj, String.append_right_inj]

end Layout

end CssValues
